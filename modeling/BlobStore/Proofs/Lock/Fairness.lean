import BlobStore.Proofs.Lock.History

/-!
# First come, first served

Those who come to a key obtain it in the order in which they came, and only those who are cancelled
before are passed over. An acquire comes to the smallest of its keys when it is started, so of two
acquires with the same smallest key the one that was started first is granted first, whatever the
others do in between.

## Main results

* `LockTable.reached_eq`: who came to a key obtained it, stands there, or was passed over
* `LockTable.mem_cancelled_of_deserted`: whoever is passed over was cancelled
* `LockTable.precedes_granted`: who obtains a key first is granted first
* `LockTable.first_come_first_served`: fairness of whole runs
-/

namespace BlobStore

namespace LockTable

/-! ## Each key -/

/-- An acquire comes to a key once. -/
theorem reached_once (k : Key) (actions : List LockAction) :
    (reached k actions).Nodup ∧ ∀ t ∈ reached k actions, t < (run {} actions).fresh ∧
      ∀ x, (run {} actions).tickets.get? t = some x → k ∈ x.remaining →
        t ∈ (run {} actions).line k := by
  induction actions using run_induction with
  | nil => exact ⟨List.nodup_nil, fun t ht => by simp [history] at ht⟩
  | concat actions a s ih =>
    obtain ⟨hn, hold⟩ := ih
    simp only [run_concat, history_concat]
    rcases s.act_cases a with ⟨-, d⟩ | ⟨u, x, taken, remaining, rfl, hu, v, -⟩
    · rw [d.arriving_eq_nil, List.append_nil]
      refine ⟨hn, fun t ht => ?_⟩
      obtain ⟨hlt, hline⟩ := hold t ht
      refine ⟨Nat.lt_of_lt_of_le hlt d.fresh, fun y hy hk => ?_⟩
      obtain ⟨hy, hgone⟩ := (d.tickets t hlt y).mp hy
      rw [d.line, List.mem_filter]
      exact ⟨hline y hy hk, by simpa using hgone⟩
    · rw [v.fresh]
      have hclaim : k ∈ taken ∨ remaining.head? = some k → k ∈ x.remaining := by
        rw [← v.split]
        rintro (hk | hk)
        · exact List.mem_append_left _ hk
        · exact List.mem_append_right _ (List.mem_of_head? hk)
      have hnew : ∀ t ∈ arriving k (run {} actions) (.poll u), t = u ∧ t ∉ reached k actions := by
        intro t ht
        rw [v.arriving_eq] at ht
        split at ht
        · rename_i h
          obtain rfl := List.mem_singleton.mp ht
          exact ⟨rfl, fun hr => h.2 ((hold t hr).2 x hu (hclaim h.1))⟩
        · simp at ht
      have harrive : (arriving k (run {} actions) (.poll u)).Nodup := by
        rw [v.arriving_eq]
        split <;> simp
      refine ⟨hn.append harrive fun t ht ha => (hnew t ha).2 ht, fun t ht => ?_⟩
      have hlt : t < (run {} actions).fresh := by
        rcases List.mem_append.mp ht with ht | ht
        · exact (hold t ht).1
        · exact (hnew t ht).1 ▸ s.ticket_lt u x hu
      refine ⟨hlt, fun y hy hk => ?_⟩
      rw [v.line_eq k]
      rcases List.mem_append.mp ht with hcame | ha
      · apply List.mem_append_left
        by_cases hut : t = u
        · subst hut
          obtain ⟨-, rfl⟩ := v.ne_nil_of_get? hy
          exact (hold t hcame).2 x hu (v.split ▸ List.mem_append_right _ hk)
        · exact (hold t hcame).2 y (v.get?_of_ne hut ▸ hy) hk
      · exact List.mem_append_right _ ha

/-- Whoever deserted a key had come to it. -/
theorem reached_of_deserted {k : Key} {actions : List LockAction} {t : TicketId}
    (h : t ∈ deserted k actions ∨ t ∈ (run {} actions).standing k) : t ∈ reached k actions := by
  induction actions using run_induction with
  | nil => simp [history, standing, line, mutex, Mutexes.read, run] at h
  | concat actions a s ih =>
    rw [run_concat] at h
    rw [mem_history_concat] at h ⊢
    rcases h with (h | h) | h
    · exact Or.inl (ih (Or.inl h))
    · exact Or.inl (ih (Or.inr (List.mem_filter.mp h).1))
    · have hmem : t ∈ obtaining k (run {} actions) a ++ ((run {} actions).act a).standing k :=
        List.mem_append_right _ h
      rw [← s.standing_act a k] at hmem
      rcases List.mem_append.mp hmem with hmem | hmem
      · exact Or.inl (ih (Or.inr (List.mem_filter.mp hmem).1))
      · exact Or.inr hmem

/-- Those who came to a key, without those who deserted it, are those who obtained it and behind
them those who stand there, in the order in which they came. -/
theorem reached_eq (k : Key) (actions : List LockAction) :
    (reached k actions).filter (· ∉ deserted k actions) =
      obtained k actions ++ (run {} actions).standing k := by
  induction actions using run_induction with
  | nil => rfl
  | concat actions a s ih =>
    have hn := (reached_once k (actions ++ [a])).1
    have hpart : (obtained k actions ++ (run {} actions).standing k).Nodup :=
      ih ▸ (reached_once k actions).1.filter _
    rw [run_concat]
    simp only [history_concat] at hn ⊢
    have hcame : (arriving k (run {} actions) a).filter
        (· ∉ deserted k actions ++ deserting k (run {} actions) a) =
          arriving k (run {} actions) a := by
      apply List.filter_eq_self.mpr
      intro t ht
      have hnot : t ∉ reached k actions := fun hr => List.disjoint_of_nodup_append hn hr ht
      simp only [List.mem_append, decide_eq_true_eq, not_or]
      exact ⟨fun hd => hnot (reached_of_deserted (Or.inl hd)),
        fun hd => hnot (reached_of_deserted (Or.inr (List.mem_filter.mp hd).1))⟩
    have hkept : (obtained k actions).filter (· ∉ deserting k (run {} actions) a) =
        obtained k actions := by
      apply List.filter_eq_self.mpr
      intro t ht
      have hnot : t ∉ deserting k (run {} actions) a := fun hd =>
        List.disjoint_of_nodup_append hpart ht (List.mem_filter.mp hd).1
      simpa using hnot
    have hstand : ((run {} actions).standing k).filter (· ∉ deserting k (run {} actions) a) =
        ((run {} actions).standing k).filter (· ∉ (run {} actions).departing a) := by
      apply List.filter_congr
      intro t ht
      simp [deserting, ht]
    calc (reached k actions ++ arriving k (run {} actions) a).filter
          (· ∉ deserted k actions ++ deserting k (run {} actions) a)
        = ((reached k actions).filter (· ∉ deserted k actions)).filter
            (· ∉ deserting k (run {} actions) a) ++ arriving k (run {} actions) a := by
          rw [List.filter_append, hcame, List.filter_filter]
          congr 1
          apply List.filter_congr
          intro t _
          simp [not_or, Bool.and_comm]
      _ = obtained k actions ++ (((run {} actions).standing k).filter
            (· ∉ (run {} actions).departing a) ++ arriving k (run {} actions) a) := by
          rw [ih, List.filter_append, hkept, hstand, List.append_assoc]
      _ = obtained k actions ++ obtaining k (run {} actions) a ++
            ((run {} actions).act a).standing k := by
          rw [s.standing_act a k, List.append_assoc]

/-- Whoever deserted a key was cancelled. -/
theorem mem_cancelled_of_deserted {k : Key} {actions : List LockAction} {t : TicketId}
    (h : t ∈ deserted k actions) : t ∈ cancelled actions := by
  induction actions using run_induction with
  | nil => simp [history] at h
  | concat actions a s ih =>
    rw [mem_history_concat] at h ⊢
    exact h.imp ih s.cancelling_of_deserting

/-! ## Grants -/

/-- Whoever obtained a key has it still, unless it was cancelled, or granted. -/
theorem owns_of_obtained (k : Key) (actions : List LockAction) {t : TicketId}
    (h : t ∈ obtained k actions) :
    (run {} actions).Owns t k ∨ t ∈ cancelled actions ∨ t ∈ granted actions := by
  induction actions using run_induction with
  | nil => simp [history] at h
  | concat actions a s ih =>
    rw [run_concat]
    rw [mem_history_concat] at h
    simp only [mem_history_concat]
    rcases h with h | h
    · rcases ih h with ho | hc | hg
      · rcases s.act_cases a with ⟨-, d⟩ | ⟨u, x, taken, remaining, rfl, hu, v, -⟩
        · by_cases hgone : t ∈ (run {} actions).departing a
          · rcases List.mem_append.mp hgone with hc | hr
            · exact Or.inr (Or.inl (Or.inr hc))
            · obtain ⟨l, hl⟩ := holder_of_mem_returning hr
              exact Or.inr (Or.inr (Or.inl (granted_of_holder actions hl)))
          · exact Or.inl ((d.owns t k).mpr ⟨ho, hgone⟩)
        · exact Or.inl ((v.owns t k).mpr (Or.inl ho))
      · exact Or.inr (Or.inl (Or.inl hc))
      · exact Or.inr (Or.inr (Or.inl hg))
    · exact Or.inl ((s.act a).mem_guards_iff.mp (List.mem_filter.mp h).1)

/-- A granted acquire has obtained all of its keys. -/
theorem obtained_of_granted (actions : List LockAction) {t : TicketId} {keys : List Key}
    (hr : (t, keys) ∈ requested actions) (hg : t ∈ granted actions) {k : Key} (hk : k ∈ keys) :
    t ∈ obtained k actions := by
  induction actions using run_induction with
  | nil => simp [history] at hg
  | concat actions a s ih =>
    rw [mem_history_concat] at hr hg ⊢
    rcases s.act_cases a with ⟨hp, -⟩ | ⟨u, x, taken, remaining, rfl, hu, v, hdone⟩
    · rw [starting_eq_nil hp] at hr
      rw [granting_eq_nil hp] at hg
      exact Or.inl (ih (hr.resolve_right (by simp)) (hg.resolve_right (by simp)))
    · rcases hg with hg | hg
      · refine Or.inl (ih (hr.resolve_right fun hs => ?_) hg)
        obtain ⟨rfl, -⟩ := (mem_starting_iff hu).mp hs
        rw [(done_of_granted actions hg).2] at hu
        cases hu
      · obtain ⟨rfl, htrue⟩ := mem_granting_iff.mp hg
        have hkeys : x.taken ++ x.remaining = keys := by
          rcases hr with hr | hr
          · exact (keys_of_requested actions hr).2 x hu
          · obtain ⟨-, rfl, hnew⟩ := (mem_starting_iff hu).mp hr
            rw [taken_eq_nil_of_new hnew, List.nil_append]
        rw [← hkeys, ← v.split, hdone.mp htrue, List.append_nil] at hk
        rcases List.mem_append.mp hk with hk | hk
        · exact Or.inl (obtained_of_owns actions (Or.inl ⟨x, hu, hk⟩))
        · refine Or.inr ?_
          rw [v.obtaining_eq s hu, if_pos hk]
          exact List.mem_singleton_self _

/-- An acquire comes to the smallest of its keys when it is started. -/
theorem starting_sublist {table : LockTable} (s : table.Sound) (a : LockAction) (k : Key) :
    (((table.starting a).filter (·.2.head? = some k)).map (·.1)).Sublist (arriving k table a) := by
  rcases s.act_cases a with ⟨hp, -⟩ | ⟨t, x, taken, remaining, rfl, ht, v, -⟩
  · simp [starting_eq_nil hp]
  · simp only [starting, ht]
    cases hnew : table.isUnderway t x with
    | true => simp
    | false =>
      by_cases hk : x.remaining.head? = some k
      · have hclaim : k ∈ taken ∨ remaining.head? = some k := by
          rw [← v.split] at hk
          cases taken with
          | nil => exact Or.inr hk
          | cons j rest =>
            obtain rfl : j = k := Option.some.inj hk
            exact Or.inl List.mem_cons_self
        have hnot : t ∉ table.line k := by
          simp only [isUnderway, hk, Option.any_some, Bool.or_eq_false_iff] at hnew
          simpa using hnew.2
        rw [v.arriving_eq, if_pos (And.intro hclaim hnot)]
        simp [hk]
      · simp [hk]

theorem requested_sublist (actions : List LockAction) (k : Key) :
    (((requested actions).filter (·.2.head? = some k)).map (·.1)).Sublist (reached k actions) := by
  induction actions using run_induction with
  | nil => exact List.Sublist.refl _
  | concat actions a s ih =>
    simp only [history_concat, List.filter_append, List.map_append]
    exact ih.append (starting_sublist s a k)

/-- In a list without repetition, one of the first part comes before another of it if it comes
before it in the whole. -/
theorem sublist_of_append {t u : TicketId} {first second : List TicketId}
    (hn : (first ++ second).Nodup) (h : [t, u].Sublist (first ++ second)) (hu : u ∈ first) :
    [t, u].Sublist first := by
  obtain ⟨before, behind, he, hb, ha⟩ := List.sublist_append_iff.mp h
  cases hlast : behind.getLast? with
  | none =>
    obtain rfl := List.getLast?_eq_none_iff.mp hlast
    rw [List.append_nil] at he
    exact he ▸ hb
  | some v =>
    have hv : v = u := by
      have := congrArg List.getLast? he
      rw [List.getLast?_append, hlast] at this
      simpa using this.symm
    have hmem : u ∈ second := ha.subset (hv ▸ List.mem_of_getLast? hlast)
    exact absurd hmem (List.disjoint_of_nodup_append hn hu)

/-- **Grants follow a key.** Of two acquires that obtained a key, the first was granted before the
second, unless it was cancelled. -/
theorem precedes_granted (k : Key) (actions : List LockAction) {t u : TicketId}
    (h : [t, u].Sublist (obtained k actions)) (hc : t ∉ cancelled actions) :
    t ∈ granted actions ∧ (u ∈ granted actions → [t, u].Sublist (granted actions)) := by
  induction actions using run_induction with
  | nil => simp [history] at h
  | concat actions a s ih =>
    rw [mem_history_concat, not_or] at hc
    have hn : (obtained k (actions ++ [a])).Nodup := by
      have hall := (reached_once k (actions ++ [a])).1.filter
        (· ∉ deserted k (actions ++ [a]))
      rw [reached_eq] at hall
      exact (List.nodup_append.mp hall).1
    have hgrow : granted (actions ++ [a]) =
        granted actions ++ granting (run {} actions) a := history_concat ..
    have hdone : t ∈ granted actions → u ∉ granted actions → u ∈ granted (actions ++ [a]) →
        [t, u].Sublist (granted (actions ++ [a])) := by
      intro ht hu hall
      rw [hgrow] at hall ⊢
      exact (List.singleton_sublist.mpr ht).append
        (List.singleton_sublist.mpr ((List.mem_append.mp hall).resolve_left hu))
    by_cases hold : u ∈ obtained k actions
    · simp only [history_concat] at h hn
      obtain ⟨ht, hboth⟩ := ih (sublist_of_append hn h hold) hc.1
      refine ⟨mem_history_concat.mpr (Or.inl ht), fun hall => ?_⟩
      by_cases hu : u ∈ granted actions
      · rw [hgrow]
        exact (hboth hu).trans (List.sublist_append_left _ _)
      · exact hdone ht hu hall
    · have hu : u ∈ obtaining k (run {} actions) a := by
        have hmem : u ∈ obtained k (actions ++ [a]) := h.subset (by simp)
        exact (mem_history_concat.mp hmem).resolve_left hold
      rcases s.act_cases a with ⟨-, d⟩ | ⟨w, x, taken, remaining, rfl, hw, v, -⟩
      · rw [d.obtaining_eq_nil s] at hu
        simp at hu
      · rw [v.obtaining_eq s hw] at hu
        split at hu
        · rename_i hk
          obtain rfl := List.mem_singleton.mp hu
          have hne : t ≠ u := by
            rintro rfl
            simpa using hn.sublist h
          have ht : t ∈ obtained k actions := by
            have hmem : t ∈ obtained k (actions ++ [.poll u]) := h.subset (by simp)
            refine (mem_history_concat.mp hmem).resolve_right fun hnow => hne ?_
            rw [v.obtaining_eq s hw, if_pos hk] at hnow
            exact List.mem_singleton.mp hnow
          have hg : t ∈ granted actions := by
            rcases owns_of_obtained k actions ht with ho | hcan | hg
            · exact absurd ho ((v.line_of_taken s hw hk).1 t)
            · exact absurd hcan hc.1
            · exact hg
          have hwait : u ∉ granted actions := by
            intro hug
            rw [(done_of_granted actions hug).2] at hw
            cases hw
          exact ⟨mem_history_concat.mpr (Or.inl hg), hdone hg hwait⟩
        · simp at hu

/-! ## Runs -/

/-- **First come, first served.** In every run an acquire comes to a key at most once; those who
came to it obtain it in the order in which they came, and those who stand there are behind them;
only those who were cancelled are passed over. Of two acquires with the same smallest key, the one
that was started first is granted first, unless it is cancelled. -/
theorem first_come_first_served (actions : List LockAction) :
    (∀ k, (reached k actions).Nodup ∧
      (reached k actions).filter (· ∉ deserted k actions) =
        obtained k actions ++ (run {} actions).standing k ∧
      ∀ t ∈ deserted k actions, t ∈ cancelled actions) ∧
    ∀ t u k keys keys',
      [(t, k :: keys), (u, k :: keys')].Sublist (requested actions) →
      t ∉ cancelled actions → u ∈ granted actions → [t, u].Sublist (granted actions) := by
  refine ⟨fun k => ⟨(reached_once k actions).1, reached_eq k actions,
    fun t => mem_cancelled_of_deserted⟩, ?_⟩
  intro t u k keys keys' hr hc hg
  have hu : u ∈ obtained k actions := by
    have hmem : (u, k :: keys') ∈ requested actions := hr.subset (by simp)
    exact obtained_of_granted actions hmem hg List.mem_cons_self
  have hreached : [t, u].Sublist (reached k actions) := by
    refine List.Sublist.trans ?_ (requested_sublist actions k)
    simpa using (hr.filter (·.2.head? = some k)).map (·.1)
  have hkept : [t, u].Sublist (obtained k actions ++ (run {} actions).standing k) := by
    rw [← reached_eq]
    have hu' : u ∉ deserted k actions := by
      have hmem : u ∈ (reached k actions).filter (· ∉ deserted k actions) := by
        rw [reached_eq]
        exact List.mem_append_left _ hu
      simpa using (List.mem_filter.mp hmem).2
    have ht' : t ∉ deserted k actions := fun hd => hc (mem_cancelled_of_deserted hd)
    simpa [ht', hu'] using hreached.filter (· ∉ deserted k actions)
  have hn : (obtained k actions ++ (run {} actions).standing k).Nodup :=
    reached_eq k actions ▸ (reached_once k actions).1.filter _
  exact (precedes_granted k actions (sublist_of_append hn hkept hu) hc).2 hg

/-- Three acquires queue behind a held lock, and one of them goes on to a second key. The last is
cancelled, and the second is polled before the first when the lock is given back. -/
def queuedRun : List LockAction :=
  [.make [⟨["a"]⟩, ⟨["b"]⟩], .make [⟨["a"]⟩], .make [⟨["c"]⟩, ⟨["a"]⟩], .request 0, .poll 3,
    .request 1, .poll 4, .request 2, .poll 5, .request 1, .poll 6, .cancel 6, .release 0, .poll 5,
    .poll 4, .release 1, .poll 5]

theorem first_come_first_served_on_queuedRun :
    [(4, [⟨["a"]⟩]), (5, [⟨["a"]⟩, ⟨["c"]⟩])].Sublist (requested queuedRun) ∧
      4 ∉ cancelled queuedRun ∧ 5 ∈ granted queuedRun ∧ [4, 5].Sublist (granted queuedRun) := by
  have hr : [(4, [⟨["a"]⟩]), (5, [⟨["a"]⟩, ⟨["c"]⟩])].Sublist (requested queuedRun) := by
    decide +kernel
  have hc : 4 ∉ cancelled queuedRun := by decide +kernel
  have hg : 5 ∈ granted queuedRun := by decide +kernel
  exact ⟨hr, hc, hg, (first_come_first_served queuedRun).2 4 5 _ _ _ hr hc hg⟩

end LockTable

end BlobStore
