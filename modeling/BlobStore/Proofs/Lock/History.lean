import BlobStore.Proofs.Lock.Exclusion
import BlobStore.Proofs.Lock.Line
import Mathlib.Data.List.Induction

/-!
# What happened in a run

A run is told by what is noted on each of its actions, from the first to the last: who came to a
key, who obtained it, which acquires were granted and which were cancelled. A run that goes on by
one action adds what is noted on this action to the end.

## Main definitions

* `LockTable.history`: the notes on a run, one after the other
* `LockTable.starting`, `LockTable.granting`, `LockTable.cancelling`: notes on acquires
* `LockTable.arriving`, `LockTable.obtaining`, `LockTable.deserting`: notes on one key

## Main results

* `LockTable.run_induction`: what holds at first and after each further action holds of every run
* `LockTable.Sound.standing_act`: who stands at a key after an action, against who stood there
* `LockTable.obtained_of_owns`, `LockTable.granted_of_holder`: what is so was noted
* `LockTable.awaits_of_requested`: an acquire that was started stands in the line at its next key
-/

namespace BlobStore

namespace LockTable

/-! ## Notes on a run -/

section

variable {α : Type}

/-- What is noted on the actions of a run, one after the other. -/
def history (note : LockTable → LockAction → List α) : LockTable → List LockAction → List α
  | _, [] => []
  | table, a :: rest => note table a ++ history note (table.act a) rest

theorem history_append (note : LockTable → LockAction → List α) (table : LockTable)
    (actions others : List LockAction) :
    history note table (actions ++ others) =
      history note table actions ++ history note (table.run actions) others := by
  induction actions generalizing table with
  | nil => rfl
  | cons a rest ih => simp only [List.cons_append, history, ih, List.append_assoc, run,
      List.foldl_cons]

theorem history_concat (note : LockTable → LockAction → List α) (table : LockTable)
    (actions : List LockAction) (a : LockAction) :
    history note table (actions ++ [a]) =
      history note table actions ++ note (table.run actions) a := by
  simp [history_append, history]

theorem mem_history_concat {note : LockTable → LockAction → List α} {table : LockTable}
    {actions : List LockAction} {a : LockAction} {x : α} :
    x ∈ history note table (actions ++ [a]) ↔
      x ∈ history note table actions ∨ x ∈ note (table.run actions) a := by
  rw [history_concat, List.mem_append]

end

theorem run_concat (table : LockTable) (actions : List LockAction) (a : LockAction) :
    table.run (actions ++ [a]) = (table.run actions).act a := by
  simp [run]

/-- **Induction on runs.** What holds before all actions, and still holds after every action that
follows a run for which it holds, holds of every run. -/
theorem run_induction {motive : List LockAction → Prop} (nil : motive [])
    (concat : ∀ actions a, (run {} actions).Sound → motive actions → motive (actions ++ [a]))
    (actions : List LockAction) : motive actions := by
  induction actions using List.reverseRecOn with
  | nil => exact nil
  | append_singleton actions a ih => exact concat actions a (sound_run actions) ih

/-! ## Notes on acquires -/

/-- An acquire that waits is under way: it has taken a key, or stands in the line at its first. -/
def isUnderway (table : LockTable) (t : TicketId) (x : Ticket) : Bool :=
  !x.taken.isEmpty || x.remaining.head?.any fun k => decide (t ∈ table.line k)

/-- An acquire that is under way stands in some line. -/
theorem Sound.mem_line_of_underway {table : LockTable} {t : TicketId} {x : Ticket}
    (s : table.Sound) (ht : table.tickets.get? t = some x) (h : table.isUnderway t x = true) :
    ∃ k, t ∈ table.line k := by
  rcases Bool.or_eq_true_iff.mp h with h | h
  · obtain ⟨k, hk⟩ := List.exists_mem_of_ne_nil x.taken (by simpa using h)
    exact ⟨k, s.mem_line_of_owns (Or.inl ⟨x, ht, hk⟩)⟩
  · obtain ⟨k, -, hk⟩ := (Option.any_eq_true _ _).mp h
    exact ⟨k, of_decide_eq_true hk⟩

/-- The acquire that is polled for the first time, with the keys of its lock. -/
def starting (table : LockTable) : LockAction → List (TicketId × List Key)
  | .poll t =>
    match table.tickets.get? t with
    | some x => if table.isUnderway t x then [] else [(t, x.remaining)]
    | none => []
  | .make _ | .request _ | .cancel _ | .release _ | .discard _ => []

/-- The acquire that is granted. -/
def granting (table : LockTable) : LockAction → List TicketId
  | .poll t => if (table.poll t).1 then [t] else []
  | .make _ | .request _ | .cancel _ | .release _ | .discard _ => []

/-- The acquires of a run, in the order in which they were started. -/
abbrev requested : List LockAction → List (TicketId × List Key) := history starting {}

/-- The acquires that were granted in a run, in this order. -/
abbrev granted : List LockAction → List TicketId := history granting {}

/-- The acquires that were cancelled in a run. -/
abbrev cancelled : List LockAction → List TicketId := history cancelling {}

/-! ## Notes on one key -/

/-- Those who stand in the line at a key and have not taken it. -/
def standing (table : LockTable) (k : Key) : List TicketId :=
  (table.line k).filter (· ∉ table.guards k)

/-- Those who come to a key. -/
def arriving (k : Key) (table : LockTable) (a : LockAction) : List TicketId :=
  ((table.act a).line k).filter (· ∉ table.line k)

/-- Those who obtain a key. -/
def obtaining (k : Key) (table : LockTable) (a : LockAction) : List TicketId :=
  ((table.act a).guards k).filter (· ∉ table.guards k)

/-- Those who depart from a key without having obtained it. -/
def deserting (k : Key) (table : LockTable) (a : LockAction) : List TicketId :=
  (table.standing k).filter (· ∈ table.departing a)

/-- Those who came to a key in a run, in this order. -/
abbrev reached (k : Key) : List LockAction → List TicketId := history (arriving k) {}

/-- Those who obtained a key in a run, in this order. -/
abbrev obtained (k : Key) : List LockAction → List TicketId := history (obtaining k) {}

/-- Those who departed from a key in a run without having obtained it. -/
abbrev deserted (k : Key) : List LockAction → List TicketId := history (deserting k) {}

/-! ## What an action adds -/

variable {table after : LockTable} {t u : TicketId} {x : Ticket} {l : LockId} {k : Key}
  {a : LockAction} {gone : List TicketId} {taken remaining : List Key}

namespace Sound

variable (s : table.Sound)

include s

theorem guards_eq_of_owns (h : table.Owns t k) : table.guards k = [t] := by
  have ht := s.mem_guards_iff.mpr h
  have hone := s.guards_length_le_one k
  match hg : table.guards k with
  | [] => simp [hg] at ht
  | [u] =>
    rw [hg] at ht
    rw [List.mem_singleton.mp ht]
  | u :: v :: rest => simp [hg] at hone

theorem guards_eq_nil (h : ∀ t, ¬ table.Owns t k) : table.guards k = [] :=
  List.eq_nil_iff_forall_not_mem.mpr fun t ht => h t (s.mem_guards_iff.mp ht)

theorem mem_standing_iff : t ∈ table.standing k ↔ t ∈ table.line k ∧ ¬ table.Owns t k := by
  simp [standing, s.mem_guards_iff]

/-- Those who stand at a key wait for it. -/
theorem awaits_of_standing (h : t ∈ table.standing k) : table.Awaits t k := by
  obtain ⟨hl, ho⟩ := s.mem_standing_iff.mp h
  exact (s.mem_line hl).resolve_left ho

end Sound

theorem Departs.arriving_eq_nil (d : Departs gone table (table.act a)) (k : Key) :
    arriving k table a = [] := by
  apply List.filter_eq_nil_iff.mpr
  intro t ht
  rw [d.line, List.mem_filter] at ht
  simpa using ht.1

theorem Departs.obtaining_eq_nil (s : table.Sound) (d : Departs gone table (table.act a))
    (k : Key) : obtaining k table a = [] := by
  apply List.filter_eq_nil_iff.mpr
  intro t ht
  simpa [s.mem_guards_iff] using ((d.owns t k).mp ((s.act a).mem_guards_iff.mp ht)).1

theorem Departs.standing_eq (s : table.Sound) (d : Departs gone table (table.act a)) (k : Key) :
    (table.act a).standing k = (table.standing k).filter (· ∉ gone) := by
  unfold standing
  rw [d.line, List.filter_filter, List.filter_filter]
  apply List.filter_congr
  intro t _
  simp only [(s.act a).mem_guards_iff, s.mem_guards_iff, d.owns, ← Bool.decide_and,
    decide_eq_decide]
  tauto

namespace Advances

variable (s : table.Sound) (v : Advances t x taken remaining table (table.act a))

include v

theorem mem_remaining (hk : k ∈ taken) : k ∈ x.remaining := v.split ▸ List.mem_append_left _ hk

theorem arriving_eq (k : Key) : arriving k table a =
    if (k ∈ taken ∨ remaining.head? = some k) ∧ t ∉ table.line k then [t] else [] := by
  unfold arriving
  rw [v.line]
  have hself : (table.line k).filter (· ∉ table.line k) = [] := by
    apply List.filter_eq_nil_iff.mpr
    intro u hu
    simpa using hu
  split
  · rename_i h
    rw [List.filter_append, hself]
    simp [h.2]
  · exact hself

theorem line_eq (k : Key) : (table.act a).line k = table.line k ++ arriving k table a := by
  rw [v.arriving_eq, v.line]
  split
  · rfl
  · simp

include s

/-- A key that is taken had no owner, and the one that takes it is at the head of the line. -/
theorem line_of_taken (ht : table.tickets.get? t = some x) (hk : k ∈ taken) :
    (∀ u, ¬ table.Owns u k) ∧
      (table.act a).line k = t :: ((table.act a).mutex k).queue := by
  have ho : (table.act a).Owns t k := (v.owns t k).mpr (Or.inr ⟨rfl, hk⟩)
  refine ⟨?_, (s.act a).line_of_owns ho⟩
  intro u hu
  obtain rfl : u = t :=
    ((s.act a).serves k).owner_unique ((v.owns u k).mpr (Or.inl hu)) ho
  exact s.not_owns_of_remaining ht (v.mem_remaining hk) hu

theorem obtaining_eq (ht : table.tickets.get? t = some x) (k : Key) :
    obtaining k table a = if k ∈ taken then [t] else [] := by
  unfold obtaining
  split
  · rename_i hk
    have ho : (table.act a).Owns t k := (v.owns t k).mpr (Or.inr ⟨rfl, hk⟩)
    rw [(s.act a).guards_eq_of_owns ho, s.guards_eq_nil (v.line_of_taken s ht hk).1]
    simp
  · rename_i hk
    apply List.filter_eq_nil_iff.mpr
    intro u hu
    have ho : table.Owns u k :=
      ((v.owns u k).mp ((s.act a).mem_guards_iff.mp hu)).resolve_right fun h => hk h.2
    simpa [s.mem_guards_iff] using ho

/-- Who comes to a key stands at the end of the line, and who takes it stood at its head. -/
theorem standing_eq (ht : table.tickets.get? t = some x) (k : Key) :
    table.standing k ++ arriving k table a =
      obtaining k table a ++ (table.act a).standing k := by
  rw [v.obtaining_eq s ht]
  unfold standing
  by_cases hk : k ∈ taken
  · have ho : (table.act a).Owns t k := (v.owns t k).mpr (Or.inr ⟨rfl, hk⟩)
    obtain ⟨hfree, hline⟩ := v.line_of_taken s ht hk
    have hn := (s.act a).line_nodup k
    rw [if_pos hk, (s.act a).guards_eq_of_owns ho, s.guards_eq_nil hfree]
    have hall : (table.line k).filter (· ∉ ([] : List TicketId)) = table.line k := by simp
    rw [hall, ← v.line_eq k]
    rw [hline] at hn ⊢
    have hrest : ((table.act a).mutex k).queue.filter (· ∉ [t]) =
        ((table.act a).mutex k).queue := by
      apply List.filter_eq_self.mpr
      intro u hu
      have hne : u ≠ t := fun he => (List.nodup_cons.mp hn).1 (he ▸ hu)
      simpa using hne
    rw [List.filter_cons, if_neg (by simp), hrest]
    rfl
  · have hg : ∀ u, u ∈ (table.act a).guards k ↔ u ∈ table.guards k := by
      intro u
      rw [(s.act a).mem_guards_iff, s.mem_guards_iff, v.owns]
      exact or_iff_left fun h => hk h.2
    have hnew : (arriving k table a).filter (· ∉ table.guards k) = arriving k table a := by
      apply List.filter_eq_self.mpr
      intro u hu
      have hnot : u ∉ table.line k := by simpa using (List.mem_filter.mp hu).2
      simpa [s.mem_guards_iff] using fun ho => hnot (s.mem_line_of_owns ho)
    simp only [if_neg hk, List.nil_append, hg, v.line_eq k, List.filter_append, hnew]

end Advances

/-- **The line at one key.** Those who stood there and have not departed, and behind them those who
came, are first the one who obtained the key, and then those who stand there now. -/
theorem Sound.standing_act (s : table.Sound) (a : LockAction) (k : Key) :
    (table.standing k).filter (· ∉ table.departing a) ++ arriving k table a =
      obtaining k table a ++ (table.act a).standing k := by
  rcases s.act_cases a with ⟨-, d⟩ | ⟨t, x, taken, remaining, rfl, ht, v, -⟩
  · rw [d.arriving_eq_nil, d.obtaining_eq_nil s, d.standing_eq s]
    simp
  · have hall : (table.standing k).filter (· ∉ table.departing (.poll t)) =
        table.standing k := by
      simp [departing, cancelling, returning]
    rw [hall]
    exact v.standing_eq s ht k

/-- Whoever departs without having obtained a key is cancelled. -/
theorem Sound.cancelling_of_deserting (s : table.Sound) (h : t ∈ deserting k table a) :
    t ∈ table.cancelling a := by
  obtain ⟨hstand, hgone⟩ := List.mem_filter.mp h
  obtain ⟨x, hx, -⟩ := s.awaits_of_standing hstand
  exact (List.mem_append.mp (of_decide_eq_true hgone)).resolve_right (s.not_mem_returning hx a)

theorem granting_eq_nil (h : ∀ t, a = .poll t → table.tickets.get? t = none) :
    table.granting a = [] := by
  cases a with
  | poll t => simp [granting, poll, h t rfl]
  | _ => rfl

theorem starting_eq_nil (h : ∀ t, a = .poll t → table.tickets.get? t = none) :
    table.starting a = [] := by
  cases a with
  | poll t => simp [starting, h t rfl]
  | _ => rfl

theorem mem_granting_iff : u ∈ table.granting (.poll t) ↔ u = t ∧ (table.poll t).1 = true := by
  simp only [granting]
  by_cases h : (table.poll t).1 = true <;> simp [h]

theorem mem_starting_iff (ht : table.tickets.get? t = some x) {keys : List Key} :
    (u, keys) ∈ table.starting (.poll t) ↔
      u = t ∧ keys = x.remaining ∧ table.isUnderway t x = false := by
  simp only [starting, ht]
  by_cases h : table.isUnderway t x = true <;> simp [h]

theorem taken_eq_nil_of_new (h : table.isUnderway t x = false) : x.taken = [] := by
  simp only [isUnderway, Bool.or_eq_false_iff] at h
  simpa using h.1

/-! ## What is so was noted -/

/-- Whoever has a key obtained it. -/
theorem obtained_of_owns (actions : List LockAction) {t : TicketId} {k : Key}
    (h : (run {} actions).Owns t k) : t ∈ obtained k actions := by
  induction actions using run_induction with
  | nil =>
    rcases h with ⟨x, hx, -⟩ | ⟨l, j, g, hl, -⟩
    · simp [run] at hx
    · simp [run] at hl
  | concat actions a s ih =>
    rw [run_concat] at h
    rw [mem_history_concat]
    rcases s.act_cases a with ⟨-, d⟩ | ⟨u, x, taken, remaining, rfl, hu, v, -⟩
    · exact Or.inl (ih ((d.owns t k).mp h).1)
    · rcases (v.owns t k).mp h with ho | ⟨rfl, hk⟩
      · exact Or.inl (ih ho)
      · refine Or.inr ?_
        rw [v.obtaining_eq s hu, if_pos hk]
        exact List.mem_singleton_self _

/-- Whoever holds a lock was granted it. -/
theorem granted_of_holder (actions : List LockAction) {l : LockId} {t : TicketId}
    (h : (run {} actions).holder l = some t) : t ∈ granted actions := by
  induction actions using run_induction with
  | nil => simp [run, holder] at h
  | concat actions a s ih =>
    rw [run_concat] at h
    rw [mem_history_concat]
    rcases s.holder_act h with h | ⟨rfl, htrue, -⟩
    · exact Or.inl (ih h)
    · exact Or.inr (mem_granting_iff.mpr ⟨rfl, htrue⟩)

/-- Whoever was granted waits no longer. -/
theorem done_of_granted (actions : List LockAction) {t : TicketId} (h : t ∈ granted actions) :
    t < (run {} actions).fresh ∧ (run {} actions).tickets.get? t = none := by
  induction actions using run_induction with
  | nil => simp [history] at h
  | concat actions a s ih =>
    rw [run_concat]
    rcases mem_history_concat.mp h with h | h
    · obtain ⟨hlt, hnone⟩ := ih h
      exact ⟨Nat.lt_of_lt_of_le hlt (s.fresh_le a), s.get?_act_eq_none a hlt hnone⟩
    · rcases s.act_cases a with ⟨hp, -⟩ | ⟨u, x, taken, remaining, rfl, hu, v, hdone⟩
      · simp [granting_eq_nil hp] at h
      · obtain ⟨rfl, htrue⟩ := mem_granting_iff.mp h
        exact ⟨v.fresh ▸ s.ticket_lt t x hu, by rw [v.get?_self, if_pos (hdone.mp htrue)]⟩

/-- An acquire that was started is for the keys with which it was started. -/
theorem keys_of_requested (actions : List LockAction) {t : TicketId} {keys : List Key}
    (h : (t, keys) ∈ requested actions) :
    t < (run {} actions).fresh ∧ ∀ x, (run {} actions).tickets.get? t = some x →
      x.taken ++ x.remaining = keys := by
  induction actions using run_induction with
  | nil => simp [history] at h
  | concat actions a s ih =>
    rw [run_concat]
    rw [mem_history_concat] at h
    rcases s.act_cases a with ⟨hp, d⟩ | ⟨u, x, taken, remaining, rfl, hu, v, -⟩
    · rw [starting_eq_nil hp] at h
      obtain ⟨hlt, hkeys⟩ := ih (h.resolve_right (by simp))
      exact ⟨Nat.lt_of_lt_of_le hlt d.fresh, fun y hy => hkeys y ((d.tickets t hlt y).mp hy).1⟩
    · rw [v.fresh]
      have hstep : x.taken ++ x.remaining = keys → ∀ y,
          ((run {} actions).act (.poll u)).tickets.get? u = some y →
          y.taken ++ y.remaining = keys := by
        intro hkeys y hy
        rw [(v.ne_nil_of_get? hy).2, ← hkeys, ← v.split, List.append_assoc]
      rcases h with h | h
      · obtain ⟨hlt, hkeys⟩ := ih h
        refine ⟨hlt, ?_⟩
        by_cases hut : t = u
        · subst hut
          exact hstep (hkeys x hu)
        · rw [v.get?_of_ne hut]
          exact hkeys
      · obtain ⟨rfl, rfl, hnew⟩ := (mem_starting_iff hu).mp h
        refine ⟨s.ticket_lt t x hu, hstep ?_⟩
        rw [taken_eq_nil_of_new hnew, List.nil_append]

/-- An acquire that was started and waits has a next key. -/
theorem exists_awaits_of_requested (actions : List LockAction) {t : TicketId} {keys : List Key}
    (h : (t, keys) ∈ requested actions) (hs : ((run {} actions).tickets.get? t).isSome) :
    ∃ k, (run {} actions).Awaits t k := by
  induction actions using run_induction with
  | nil => simp [history] at h
  | concat actions a s ih =>
    rw [run_concat] at hs ⊢
    rw [mem_history_concat] at h
    obtain ⟨y, hy⟩ := Option.isSome_iff_exists.mp hs
    have hold : (run {} actions).tickets.get? t = some y → (t, keys) ∈ requested actions →
        ∃ k, ((run {} actions).act a).Awaits t k := by
      intro hget hr
      obtain ⟨k, z, hz, hk⟩ := ih hr (hget ▸ rfl)
      obtain rfl : y = z := Option.some.inj (hget.symm.trans hz)
      exact ⟨k, y, hy, hk⟩
    rcases s.act_cases a with ⟨hp, d⟩ | ⟨u, x, taken, remaining, rfl, hu, v, -⟩
    · rw [starting_eq_nil hp] at h
      have hr := h.resolve_right (by simp)
      exact hold ((d.tickets t (keys_of_requested actions hr).1 y).mp hy).1 hr
    · by_cases hut : t = u
      · subst hut
        obtain ⟨hr, rfl⟩ := v.ne_nil_of_get? hy
        obtain ⟨k, hk⟩ := Option.ne_none_iff_exists'.mp (mt List.head?_eq_none_iff.mp hr)
        exact ⟨k, _, hy, hk⟩
      · exact hold (v.get?_of_ne hut ▸ hy)
          (h.resolve_right fun hs => hut ((mem_starting_iff hu).mp hs).1)

/-- An acquire that was started and waits stands in the line at its next key. -/
theorem awaits_of_requested (actions : List LockAction) {t : TicketId} {keys : List Key}
    (h : (t, keys) ∈ requested actions) {k : Key} (hk : (run {} actions).Awaits t k) :
    t ∈ (run {} actions).line k := by
  induction actions using run_induction with
  | nil => simp [history] at h
  | concat actions a s ih =>
    rw [run_concat] at hk ⊢
    rw [mem_history_concat] at h
    obtain ⟨y, hy, hhead⟩ := hk
    rcases s.act_cases a with ⟨hp, d⟩ | ⟨u, x, taken, remaining, rfl, hu, v, -⟩
    · rw [starting_eq_nil hp] at h
      have h := h.resolve_right (by simp)
      obtain ⟨hy, hgone⟩ := (d.tickets t (keys_of_requested actions h).1 y).mp hy
      rw [d.line, List.mem_filter]
      exact ⟨ih h ⟨y, hy, hhead⟩, by simpa using hgone⟩
    · by_cases hut : t = u
      · subst hut
        obtain ⟨-, rfl⟩ := v.ne_nil_of_get? hy
        rw [v.line]
        split
        · simp
        · rename_i hnot
          by_contra hline
          exact hnot ⟨Or.inr hhead, hline⟩
      · rw [v.line_eq k]
        apply List.mem_append_left
        exact ih (h.resolve_right fun hs => hut ((mem_starting_iff hu).mp hs).1)
          ⟨y, v.get?_of_ne hut ▸ hy, hhead⟩

/-- Whoever stands in a line was started. -/
theorem requested_of_mem_line (actions : List LockAction) {t : TicketId} {k : Key}
    (h : t ∈ (run {} actions).line k) : ∃ keys, (t, keys) ∈ requested actions := by
  induction actions using run_induction generalizing k with
  | nil => simp [run, line, mutex, Mutexes.read] at h
  | concat actions a s ih =>
    rw [run_concat] at h
    simp only [mem_history_concat]
    rcases s.act_cases a with ⟨-, d⟩ | ⟨u, x, taken, remaining, rfl, hu, v, -⟩
    · rw [d.line, List.mem_filter] at h
      exact (ih h.1).imp fun _ => Or.inl
    · rw [v.line_eq k, List.mem_append] at h
      rcases h with h | h
      · exact (ih h).imp fun _ => Or.inl
      · rw [v.arriving_eq] at h
        obtain rfl : t = u := by
          split at h
          · exact List.mem_singleton.mp h
          · simp at h
        cases hway : (run {} actions).isUnderway t x with
        | false => exact ⟨x.remaining, Or.inr ((mem_starting_iff hu).mpr ⟨rfl, rfl, hway⟩)⟩
        | true =>
          obtain ⟨j, hj⟩ := s.mem_line_of_underway hu hway
          exact (ih hj).imp fun _ => Or.inl

end LockTable

end BlobStore
