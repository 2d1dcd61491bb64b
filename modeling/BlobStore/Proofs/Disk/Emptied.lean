import BlobStore.Proofs.Disk.Placed

/-!
# Chains of empty directories

Directories that are removed one after the other, by their paths, are empty directories when their
turns come. Which they are can be told from the places that the paths had before anything was
removed, as long as every path still leads to its place when its turn comes.

## Main definitions

* `Disk.emptied`: the first of some places, those that are empty directories when their turns come
* `Disk.eraseAll`: a disk without what stands at some places

## Main results

* `Disk.removeDirectories_chain`: what is removed is empty when its turn comes
* `Disk.removeDirectories_emptied`: what is removed is told from the places before
-/

namespace BlobStore

namespace Disk

variable {d e e' : Disk} {p q : DiskPath} {place : Place} {places : List Place}
  {paths : List DiskPath}

/-- The first of some places, as far as there are empty directories once those before are gone. -/
def emptied (d : Disk) : List Place → List Place
  | [] => []
  | place :: rest =>
    if d.at? place = some .directory ∧ (d.below place).isEmpty then
      place :: (d.erase place).emptied rest
    else []

/-- The disk without what stands at some places. -/
def eraseAll (d : Disk) (places : List Place) : Disk := places.foldl erase d

@[simp] theorem eraseAll_nil (d : Disk) : d.eraseAll [] = d := rfl

@[simp] theorem eraseAll_cons (d : Disk) (place : Place) (rest : List Place) :
    d.eraseAll (place :: rest) = (d.erase place).eraseAll rest := rfl

theorem emptied_cons (h : d.at? place = some .directory ∧ (d.below place).isEmpty) :
    d.emptied (place :: places) = place :: (d.erase place).emptied places := if_pos h

theorem emptied_cons_of_not (h : ¬ (d.at? place = some .directory ∧ (d.below place).isEmpty)) :
    d.emptied (place :: places) = [] := if_neg h

theorem includes_eraseAll (d : Disk) (places : List Place) : d.Includes (d.eraseAll places) := by
  induction places generalizing d with
  | nil => exact .refl d
  | cons place rest ih => exact fun x entry hx => includes_erase d place x entry (ih _ x entry hx)

/-- Without fewer of the directories a disk is another one. -/
theorem eraseAll_eq_iff (hne : [] ∉ places) {lost : List Place} (h : lost <+: d.emptied places) :
    d.eraseAll lost = d.eraseAll (d.emptied places) ↔ lost = d.emptied places := by
  refine ⟨fun he => ?_, fun he => by rw [he]⟩
  induction places generalizing d lost with
  | nil => exact List.prefix_nil.mp h
  | cons place rest ih =>
    obtain ⟨hplace, hrest⟩ := not_or.mp (List.mem_cons.not.mp hne)
    by_cases hempty : d.at? place = some .directory ∧ (d.below place).isEmpty
    · rw [emptied_cons hempty] at h he ⊢
      cases lost with
      | nil =>
        have hat := hempty.1
        rw [eraseAll_nil, eraseAll_cons] at he
        rw [he] at hat
        have hgone := includes_eraseAll _ _ place _ hat
        rw [at?_erase_self (Ne.symm hplace)] at hgone
        cases hgone
      | cons first more =>
        obtain ⟨rfl, hmore⟩ := List.cons_prefix_cons.mp h
        rw [ih hrest hmore he]
    · rw [emptied_cons_of_not hempty] at h ⊢
      exact List.prefix_nil.mp h

/-- A directory with something in it is not empty. -/
theorem below_isEmpty_of_at? {way : Place} {entry : DiskEntry} (hway : way ≠ [])
    (h : d.at? (place ++ way) = some entry) : ¬ (d.below place).isEmpty := by
  intro hempty
  have hm : (place ++ way, entry) ∈ d.entries.entries := by
    rw [at?_of_ne_nil (by simp [hway])] at h
    exact OrderedMap.mem_entries_of_get? h
  have hbelow := List.filterMap_eq_nil_iff.mp (List.isEmpty_iff.mp hempty) _ hm
  simp [hway] at hbelow

/-! ## One after the other -/

/-- Every directory that is removed is empty when its turn comes. -/
theorem removeDirectories_chain (d : Disk) (paths : List DiskPath) :
    ∃ lost, d.removeDirectories paths = d.eraseAll lost ∧ d.emptied lost = lost := by
  induction paths generalizing d with
  | nil => exact ⟨[], rfl, rfl⟩
  | cons p rest ih =>
    rw [removeDirectories]
    cases hr : d.removeDirectory p with
    | error e => exact ⟨[], rfl, rfl⟩
    | ok e =>
      obtain ⟨place, -, hat, hempty, rfl⟩ := place_of_removeDirectory hr
      obtain ⟨lost, hlost, hchain⟩ := ih (d.erase place)
      exact ⟨place :: lost, hlost, by rw [emptied_cons ⟨hat, hempty⟩, hchain]⟩

/-- The places of some paths before anything is removed: of these the first are removed, and as many
as are empty by then exactly if no path to one leads over one before it. -/
theorem removeDirectories_emptied (hi : d.Includes e) (hc : e.current = d.current)
    {place? : DiskPath → Option Place} (hplace : ∀ p ∈ paths, (place? p).isSome)
    (hshort : ∀ p ∈ paths, ∀ piece ∈ p.passes, isTooLong piece = false)
    {gone : List Place} (hgone : e.emptied (paths.filterMap place?) = gone)
    (hled : ∀ p ∈ paths.take (gone.length + 1), d.place? p = place? p) :
    ∃ lost, lost <+: gone ∧ e.removeDirectories paths = e.eraseAll lost ∧
      (lost = gone ↔
        (∀ p ∈ paths.take gone.length, ∀ x, e.at? x ≠ d.at? x → ¬ d.PassesOver p x) ∧
          (paths.take gone.length).Pairwise fun p q =>
            ∀ x, place? p = some x → ¬ d.PassesOver q x) := by
  -- every disk on the way holds less than the first, so where a path leads, it leads where it did
  induction paths generalizing e gone with
  | nil => exact ⟨[], List.nil_prefix, rfl, by simp [← hgone, emptied]⟩
  | cons p rest ih =>
    obtain ⟨place, hp⟩ := Option.isSome_iff_exists.mp (hplace p List.mem_cons_self)
    have hdp : d.place? p = some place := (hled p (by simp)).trans hp
    rw [List.filterMap_cons_some hp] at hgone
    rw [removeDirectories]
    cases hr : e.removeDirectory p with
    | ok e' =>
      obtain ⟨place', hep, hat, hempty, rfl⟩ := place_of_removeDirectory hr
      obtain rfl : place = place' := Option.some.inj (hdp.symm.trans (hi.place? hc.symm hep))
      rw [emptied_cons ⟨hat, hempty⟩] at hgone
      subst hgone
      obtain ⟨lost, hprefix, hlost, hall⟩ := ih (e := e.erase place)
        (fun x entry hx => hi x entry (includes_erase e place x entry hx)) hc
        (fun q hq => hplace q (List.mem_cons_of_mem _ hq))
        (fun q hq => hshort q (List.mem_cons_of_mem _ hq)) rfl
        (fun q hq => hled q (List.mem_cons_of_mem _ hq))
      refine ⟨place :: lost, List.cons_prefix_cons.mpr ⟨rfl, hprefix⟩, hlost, ?_⟩
      have hne : place ≠ [] := place?_ne_nil hep
      have herased : ∀ x, (e.erase place).at? x ≠ d.at? x ↔ x = place ∨ e.at? x ≠ d.at? x := by
        intro x
        by_cases hx : place = x
        · subst hx
          simp [at?_erase_self hne, hi place _ hat]
        · simp [at?_erase_of_ne hx, Ne.symm hx]
      simp only [List.length_cons, List.take_succ_cons, List.forall_mem_cons, List.pairwise_cons,
        List.cons.injEq, true_and, hall, herased]
      constructor
      · rintro ⟨hsteady, hapart⟩
        refine ⟨⟨fun x hx => not_passesOver_of_includes hi hc hep hx,
          fun q hq x hx => hsteady q hq x (.inr hx)⟩, fun q hq x hx => ?_, hapart⟩
        exact hsteady q hq x (.inl (Option.some.inj (hx.symm.trans hp)))
      · rintro ⟨⟨-, hsteady⟩, hfirst, hapart⟩
        refine ⟨fun q hq x hx => ?_, hapart⟩
        rcases hx with rfl | hx
        · exact hfirst q hq x hp
        · exact hsteady q hq x hx
    | error error =>
      refine ⟨[], List.nil_prefix, rfl, ?_⟩
      by_cases hempty : e.at? place = some .directory ∧ (e.below place).isEmpty
      · rw [emptied_cons hempty] at hgone
        subst hgone
        refine ⟨fun h => by simp at h, fun ⟨hsteady, _⟩ => ?_⟩
        have hep : e.place? p = some place := place?_steady hdp hc (hsteady p (by simp))
        rw [removeDirectory_of_place? hep (hshort p List.mem_cons_self) hempty.1 hempty.2] at hr
        cases hr
      · rw [emptied_cons_of_not hempty] at hgone
        subst hgone
        simp

end Disk

end BlobStore
