import BlobStore.Proofs.Directory.Agreement
import BlobStore.Proofs.Directory.Twins

/-!
# Traces of failed requests

A request that fails makes no difference to later ones, unless it has made a directory that stays.
That happens if a value was to be put under a key whose file the disk cannot have; the directory can
only be one on the way there. It is in the way of a value: one that could be saved in its place
before cannot be saved any more.

## Main definitions

* `Directory.Vacant`: a root below which nothing is
* `Directory.Litters`: a directory was made, other than the one for drafts

## Main results

* `Directory.Rests.save_free`, `Directory.Rests.save_taken`: where a value can be saved
* `Directory.trace_of_failed`: what a failed request changes for later ones
-/

namespace BlobStore

namespace Directory

variable {dir : Directory} {key : Key} {base d d' : Disk} {root : Place} {serial : Nat}
  {draft : DraftFile} {bytes : Bytes}

/-! ## Saves that succeed or fail -/

namespace Drafting

/-- A complete draft becomes the value of a key if no file is above its place and no directory
there. -/
theorem finish_free (h : dir.Drafting base root d draft bytes) (hroom : dir.HasRoom draft.serial)
    (hk : dir.Suits key) (hroot : key ≠ Key.root)
    (habove : ∀ front, front <+: key.names → front ≠ key.names →
      ∀ file, d.at? (root ++ front) ≠ some (.file file))
    (hfree : d.at? (root ++ key.names) ≠ some .directory) :
    (dir.finishSave key { bytes, file := some draft } d).1.result = .ok () := by
  obtain ⟨file, hat, -, -⟩ := h.file
  obtain ⟨d₁, d₂, d₃, hinstall, -⟩ := install_free h.rooted h.sound hroom.admits hat hk hroot habove
    hfree (dir.draft_ne hk.shown _) (fun e => StorageError.io key e.toIo)
    fun e => StorageError.io key e.toIo
  unfold finishSave
  rw [hk.path]
  simp only [draftPath_eq, hinstall]

/-- It does not if a directory is there. -/
theorem finish_taken (h : dir.Drafting base root d draft bytes) (hroom : dir.HasRoom draft.serial)
    (hk : dir.Suits key) (hroot : key ≠ Key.root)
    (hdir : d.at? (root ++ key.names) = some .directory) :
    (dir.finishSave key { bytes, file := some draft } d).1.result =
      .error (.io key DiskError.isDirectory.toIo) := by
  obtain ⟨file, hat, -, -⟩ := h.file
  have hne := dir.draft_ne hk.shown draft.serial
  obtain ⟨names, name, hsegments⟩ := exists_concat hroot
  have ha := hk.admits
  have hv := hk.visible hroot
  unfold finishSave
  rw [hk.path]
  rw [hsegments] at ha hdir hne hv ⊢
  have habove := h.rooted.nested names name (by rw [hdir]; rfl)
  have hmake : d.makeDirectories (dir.rootPath.descend names).bare = (.ok (), d) :=
    (h.rooted.leads_descend habove).makeDirectories
  have hbefore : ¬ names ++ [name] <+: [draftsName] := by
    intro hp
    rcases prefix_draftsName hp with he | he
    · simp at he
    · exact not_visible_draft [] (he ▸ hv)
  have hrename := h.rooted.renameFile_eq hroom.admits hat ha.isName hne
  rw [h.rooted.lookUp_free ha habove, hdir, if_neg hbefore] at hrename
  simp only [draftPath_eq, install, DiskPath.parent_descend (ha.isName name (by simp)), hmake,
    hrename, discard]

end Drafting

namespace Rests

/-- A save is decided when its content is complete. -/
theorem save_result (h : dir.Rests base root d) (hroom : dir.HasRoom serial) (hk : dir.Suits key)
    {content : Content} (hdrain : content.drain = .ok bytes) (now : Time) :
    ∃ number d', dir.Drafting base root d' ⟨serial, number⟩ bytes ∧ Untouched d d' root ∧
      (dir.save key content now (d, serial)).1.result =
        (dir.finishSave key { bytes, file := some ⟨serial, number⟩ } d').1.result := by
  rcases h.openDraft serial now with ⟨-, number, d₁, hopen, hdraft, hu⟩ | ⟨hnone, -⟩
  case inr => exact absurd hroom hnone
  rw [Content.drain_eq_joined, joined] at hdrain
  rcases hchunks : chunksOf content.producer.items with ⟨chunks, failure, unpulled⟩
  rw [hchunks] at hdrain
  cases failure with
  | some cause => cases hdrain
  | none =>
    cases hdrain
    obtain ⟨d₂, happend, hdraft, hu₂⟩ := hdraft.append chunks.flatten now
    rw [List.nil_append] at happend hdraft
    refine ⟨number, d₂, hdraft, hu.trans hu₂, ?_⟩
    unfold Directory.save
    simp only [Directory.startSave, hk.path, hopen, Reply.ok, hchunks, happend]

/-- A value is saved if no file is above its place and no directory there. -/
theorem save_free (h : dir.Rests base root d) (hroom : dir.HasRoom serial) (hk : dir.Suits key)
    (hroot : key ≠ Key.root)
    (habove : ∀ front, front <+: key.names → front ≠ key.names →
      ∀ file, d.at? (root ++ front) ≠ some (.file file))
    (hfree : d.at? (root ++ key.names) ≠ some .directory) {content : Content}
    (hdrain : content.drain = .ok bytes) (now : Time) :
    (dir.save key content now (d, serial)).1.result = .ok () := by
  obtain ⟨number, d', hdraft, hu, hresult⟩ := h.save_result hroom hk hdrain now
  rw [hresult]
  refine hdraft.finish_free hroom hk hroot ?_ ?_
  · intro front hp hne file hat
    by_cases hfront : front = []
    · rw [hfront, List.append_nil, hdraft.rooted.directory] at hat
      cases hat
    · rw [hu front (IsShown.visible hk.shown hfront hp)] at hat
      exact habove front hp hne file hat
  · rw [hu _ (hk.visible hroot)]
    exact hfree

/-- No value is saved where a directory is. -/
theorem save_taken (h : dir.Rests base root d) (hroom : dir.HasRoom serial) (hk : dir.Suits key)
    (hroot : key ≠ Key.root) (hdir : d.at? (root ++ key.names) = some .directory)
    {content : Content} (hdrain : content.drain = .ok bytes) (now : Time) :
    (dir.save key content now (d, serial)).1.result =
      .error (.io key DiskError.isDirectory.toIo) := by
  obtain ⟨number, d', hdraft, hu, hresult⟩ := h.save_result hroom hk hdrain now
  rw [hresult]
  refine hdraft.finish_taken hroom hk hroot ?_
  rw [hu _ (hk.visible hroot)]
  exact hdir

end Rests

/-! ## Litter -/

/-- The root is a directory below which nothing is. It stands in a directory, as everything else on
the disk, and the last name of its path is no link. -/
structure Vacant (dir : Directory) (d : Disk) : Prop where
  sound : d.Sound
  settled : dir.Settled d
  empty : dir.Empty d

/-- A directory was made, other than the one for drafts. -/
def Litters (dir : Directory) (d d' : Disk) : Prop :=
  ∃ place, d.at? place = none ∧ d'.at? place = some .directory ∧
    ∀ root, d'.walk dir.rootPath = .ok root → place ≠ root ++ [draftsName]

/-- The directory is where a value can be. -/
theorem Litters.exists_way (h : dir.Rests base root d) (h' : dir.Rests base root d')
    (hl : dir.Litters d d') :
    ∃ way, Visible way ∧ d.at? (root ++ way) = none ∧ d'.at? (root ++ way) = some .directory := by
  obtain ⟨place, hnone, hdir, hdrafts⟩ := hl
  have hbelow : ∃ way, way ≠ [] ∧ place = root ++ way := by
    by_contra hout
    have hplace : ∀ way, way ≠ [] → place ≠ root ++ way := fun way hne he => hout ⟨way, hne, he⟩
    rw [h'.rooted.same place hplace, ← h.rooted.same place hplace, hnone] at hdir
    cases hdir
  obtain ⟨way, hway, rfl⟩ := hbelow
  refine ⟨way, ⟨hway, fun hhead => ?_⟩, hnone, hdir⟩
  obtain ⟨first, rest, rfl⟩ := List.exists_cons_of_ne_nil hway
  obtain rfl : first = draftsName := by simpa using hhead
  by_cases hrest : rest = []
  · exact hdrafts root h'.rooted.leads.walk (by rw [hrest])
  · rw [h'.idle rest hrest] at hdir
    cases hdir

theorem Littered.untouched (h : dir.Littered d d' root key) (hr : d'.Rooted base dir.rootPath root)
    (hl : ¬ dir.Litters d d') : Untouched d d' root := by
  intro way hv
  rcases h way hv with he | ⟨hnone, hdir, -⟩
  · exact he
  · refine absurd ⟨root ++ way, hnone, hdir, fun root' hwalk he => ?_⟩ hl
    rw [hr.leads.walk] at hwalk
    cases hwalk
    exact not_visible_draft [] (List.append_cancel_left he ▸ hv)

/-! ## Later requests -/

theorem Vacant.rests (h : dir.Vacant d) : ∃ root, dir.Rests d root d := by
  obtain ⟨root, hholds⟩ := h.empty.holds h.sound
  exact ⟨root, hholds.rests⟩

/-- After any run there are no drafts, and at most as many were opened as requests were put. -/
theorem Rests.after (h : dir.Rests base root d) (hb : dir.Settled base) (clock : Nat → Time)
    {requests : List Request} (hr : ∀ r ∈ requests, ∀ key ∈ r.named, IsShown key) :
    dir.Rests base root (dir.backend.after clock requests 0 (d, 0)).1 ∧
      (dir.backend.after clock requests 0 (d, 0)).2 ≤ requests.length := by
  have hstep : ∀ r ∈ requests, ∀ n now (s : Disk × Nat), dir.Rests base root s.1 ∧ s.2 ≤ n →
      dir.Rests base root (dir.answer r now s).2.1 ∧ (dir.answer r now s).2.2 ≤ n + 1 := by
    rintro r hm n now s ⟨hs, hn⟩
    obtain ⟨hrests, hcount, -⟩ := hs.answer (fun _ => hb) (hr r hm) now
    exact ⟨hrests, hcount.trans (Nat.succ_le_succ hn)⟩
  have hafter := dir.backend.after_induction clock
    (P := fun n s => dir.Rests base root s.1 ∧ s.2 ≤ n) (s := (d, 0)) hstep ⟨h, Nat.le_refl 0⟩
  rwa [Nat.zero_add] at hafter

/-- Twins answer all runs alike, as long as there is room for drafts. -/
theorem Twins.observe {s s' : Disk × Nat} (h : dir.Twins base root s.1 s'.1)
    (hb : dir.Settled base) {bound : Nat} {requests : List Request}
    (hr : ∀ r ∈ requests, ∀ key ∈ r.named, IsShown key)
    (hroom : ∀ serial < bound, dir.HasRoom serial) (hs : s.2 + requests.length ≤ bound)
    (hs' : s'.2 + requests.length ≤ bound) (clock clock' : Nat → Time) :
    dir.backend.observe clock requests 0 s = dir.backend.observe clock' requests 0 s' := by
  refine Backend.observe_congr
    (R := fun n t t' => dir.Twins base root t.1 t'.1 ∧ t.2 ≤ s.2 + n ∧ t'.2 ≤ s'.2 + n) ?_
    clock clock' (Nat.le_of_eq (Nat.zero_add requests.length)) ⟨h, Nat.le_refl _, Nat.le_refl _⟩
    (dir.backend.allows_of_forall clock' hr 0 s')
  rintro n r now now' t t' hn ⟨htwins, ht, ht'⟩ hr
  obtain ⟨-, hcount, -⟩ := htwins.first.answer (fun _ => hb) hr now
  obtain ⟨-, hcount', -⟩ := htwins.second.answer (fun _ => hb) hr now'
  have hboth := iff_of_true (hroom t.2 (by omega)) (hroom t'.2 (by omega))
  obtain ⟨hresult, hafter⟩ := htwins.answer (fun _ => hb) hboth hr now now'
  refine ⟨hresult, hafter, ?_, ?_⟩
  · show (dir.answer r now t).2.2 ≤ s.2 + (n + 1)
    omega
  · show (dir.answer r now' t').2.2 ≤ s'.2 + (n + 1)
    omega

/-- A directory that was left is at the place of a key. -/
theorem Littered.exists_key {d d' : Disk} (h : dir.Littered d d' root key) {way : List FileName}
    (hv : Visible way) (hnone : d.at? (root ++ way) = none)
    (hdir : d'.at? (root ++ way) = some .directory) : ∃ lost : Key, lost.names = way := by
  rcases h way hv with hsame | ⟨-, -, ⟨rest, hrest⟩, -⟩
  · rw [hsame, hnone] at hdir
    cases hdir
  · obtain ⟨before, -, -, hbefore, -⟩ := namesOf_eq_append.mp hrest.symm
    exact ⟨⟨before⟩, hbefore⟩

/-- Where a directory was left a value could be saved before, and no value can be any more. -/
theorem Littered.lost {s s' : Disk × Nat} (h : dir.Rests base root s.1)
    (h' : dir.Rests base root s'.1) (hl : dir.Littered s.1 s'.1 root key) {way : List FileName}
    (hv : Visible way) (hnone : s.1.at? (root ++ way) = none)
    (hdir : s'.1.at? (root ++ way) = some .directory) (hway : dir.Suits (.ofNames way))
    (hroom : dir.HasRoom s.2) (hroom' : dir.HasRoom s'.2) {content : Content}
    (hdrain : content.drain = .ok bytes) (now now' : Time) :
    (dir.answer (.save (.ofNames way) content) now s).1.result = .ok () ∧
      (dir.answer (.save (.ofNames way) content) now' s').1.result =
        .error (.io (.ofNames way) DiskError.isDirectory.toIo) := by
  obtain ⟨lost, hlost⟩ : ∃ lost : Key, lost.names = way := hl.exists_key hv hnone hdir
  rw [← hlost, Key.ofNames_names] at hway ⊢
  have hroot : lost ≠ Key.root := by
    rintro rfl
    exact hv.1 hlost.symm
  refine ⟨h.save_free hroom hway hroot ?_ (by simp [hlost, hnone]) hdrain now,
    h'.save_taken hroom' hway hroot (hlost ▸ hdir) hdrain now'⟩
  rw [hlost]
  rintro front ⟨more, rfl⟩ hne file hat
  have hfront : front ≠ [] := by
    rintro rfl
    rw [List.append_nil, h.rooted.directory] at hat
    cases hat
  have habove : s'.1.at? (root ++ front) = some .directory := by
    refine h'.rooted.above (by rw [hdir]; rfl) ?_
    rintro rfl
    exact hne (by simp)
  rcases hl front (hv.of_append hfront) with he | ⟨hmissing, -⟩
  · rw [he, hat] at habove
    cases habove
  · rw [hmissing] at hat
    cases hat

/-- **Failed requests.** A request that fails in a run on an empty root makes no difference to the
answers to any later requests, unless it leaves a directory. That happens only if it was to put a
value under a key whose file the disk cannot have. Then a value that could have been saved instead
cannot be saved any more. -/
theorem trace_of_failed (dir : Directory) (d : Disk) (hd : dir.Vacant d) (clock : Nat → Time)
    (before later : List Request) (r : Request)
    (hshown : ∀ q ∈ before ++ r :: later, ∀ key ∈ q.named, IsShown key)
    (hroom : ∀ serial ≤ before.length + 1 + later.length, dir.HasRoom serial) (now : Time)
    (s s' : Disk × Nat) (hs : dir.backend.after clock before 0 (d, 0) = s)
    (hs' : (dir.answer r now s).2 = s') {e : StorageError}
    (he : (dir.answer r now s).1.result = .error e) :
    (¬ dir.Litters s.1 s'.1 → ∀ clock clock' : Nat → Time,
        dir.backend.observe clock later 0 s' = dir.backend.observe clock' later 0 s) ∧
      (dir.Litters s.1 s'.1 → (∃ key, r.destination? = some key ∧ ¬ dir.Suits key) ∧
        ∃ lost, dir.Suits lost ∧ ∀ content bytes, content.drain = .ok bytes → ∀ now now' : Time,
          (dir.answer (.save lost content) now s).1.result = .ok () ∧
            (dir.answer (.save lost content) now' s').1.result =
              .error (.io lost DiskError.isDirectory.toIo)) := by
  obtain ⟨root, hstart⟩ := hd.rests
  have hr := hshown r (by simp)
  obtain ⟨hrests, hcount⟩ := hstart.after hd.settled clock
    fun q (hq : q ∈ before) => hshown q (by simp [hq])
  rw [hs] at hrests hcount
  obtain ⟨hrests', hcount', hfailed⟩ := hrests.answer (fun _ => hd.settled) hr now
  have hleft := hfailed e he
  rw [hs'] at hrests' hcount' hleft
  constructor
  · intro hclean clock clock'
    have hu : Untouched s.1 s'.1 root := by
      rcases hleft with hu | ⟨key, -, hl⟩
      · exact hu
      · exact hl.untouched hrests'.rooted hclean
    have htwins : dir.Twins d root s'.1 s.1 := ⟨hrests', hrests, hu.alike⟩
    exact htwins.observe hd.settled (fun q hq => hshown q (by simp [hq]))
      (fun serial hlt => hroom serial (Nat.le_of_lt hlt)) (by omega) (by omega) clock clock'
  · intro hlitters
    obtain ⟨way, hv, hnone, hdir⟩ := hlitters.exists_way hrests hrests'
    rcases hleft with hu | ⟨key, hkey, hl⟩
    · rw [hu way hv, hnone] at hdir
      cases hdir
    · rcases hl way hv with hsame | ⟨-, -, -, hway, hk⟩
      · rw [hsame, hnone] at hdir
        cases hdir
      · exact ⟨⟨key, hkey, hk⟩, .ofNames way, hway, fun content bytes hdrain now now' =>
          hl.lost hrests hrests' hv hnone hdir hway (hroom _ (by omega)) (hroom _ (by omega)) hdrain
            now now'⟩

/-- A disk with an empty root for `sampleDirectory`. -/
def vacantDisk : Disk :=
  (({} : Disk).put (namesOf ["srv"]) .directory).put (namesOf ["srv", "store"]) .directory

theorem vacant_vacantDisk : sampleDirectory.Vacant vacantDisk where
  sound := by
    have hs : (({} : Disk).put (namesOf ["srv"]) .directory).Sound :=
      (Disk.changed_put Disk.sound_empty (by simp) (by simp)).sound
    exact (Disk.changed_put hs (by simp) (by simp)).sound
  settled := by
    refine ⟨by decide +kernel, fun here name target ha => ?_⟩
    have happroach : vacantDisk.approach sampleDirectory.rootPath =
        .ok (namesOf ["srv"], some (.text "store")) := by decide +kernel
    rw [happroach] at ha
    cases ha
    have hat : vacantDisk.at? (namesOf ["srv"] ++ [.text "store"]) = some .directory := by
      decide +kernel
    rw [hat]
    simp
  empty := ⟨namesOf ["srv", "store"], by decide +kernel, by decide +kernel, by decide +kernel⟩

/-- What is stored before a request fails. -/
def savedFirst : List Request := [.save ⟨["a", "b"]⟩ (.ofBytes [1])]

/-- The disk and the number of drafts then. -/
def savedState : Disk × Nat :=
  sampleDirectory.backend.after (fun n => ⟨n⟩) savedFirst 0 (vacantDisk, 0)

/-- A content for which there is no place, since a directory is there. -/
def secondContent : Content := .ofStream [.chunk [2], .chunk [3]] none

/-- Requests that find the place free once the directory is empty. -/
def askedLater : List Request :=
  [.list .root, .delete ⟨["a", "b"]⟩, .save ⟨["a"]⟩ (.ofBytes [4]), .value ⟨["a"]⟩]

theorem trace_of_failed_save :
    sampleDirectory.Vacant vacantDisk ∧
      (∀ q ∈ savedFirst ++ .save ⟨["a"]⟩ secondContent :: askedLater, ∀ key ∈ q.named,
        IsShown key) ∧
      (∀ serial ≤ savedFirst.length + 1 + askedLater.length, sampleDirectory.HasRoom serial) ∧
      (sampleDirectory.answer (.save ⟨["a"]⟩ secondContent) ⟨1⟩ savedState).1.result =
        .error (.io ⟨["a"]⟩ DiskError.isDirectory.toIo) ∧
      sampleDirectory.backend.observe (fun n => ⟨n + 2⟩) askedLater 0
          (sampleDirectory.answer (.save ⟨["a"]⟩ secondContent) ⟨1⟩ savedState).2 =
        sampleDirectory.backend.observe (fun n => ⟨n + 1⟩) askedLater 0 savedState := by
  have hshown : ∀ q ∈ savedFirst ++ .save ⟨["a"]⟩ secondContent :: askedLater, ∀ key ∈ q.named,
      IsShown key := by decide
  have hroom : ∀ serial ≤ savedFirst.length + 1 + askedLater.length,
      sampleDirectory.HasRoom serial := by decide
  have hfailed : (sampleDirectory.answer (.save ⟨["a"]⟩ secondContent) ⟨1⟩ savedState).1.result =
      .error (.io ⟨["a"]⟩ DiskError.isDirectory.toIo) := by decide +kernel
  have hentries :
      (sampleDirectory.answer (.save ⟨["a"]⟩ secondContent) ⟨1⟩ savedState).2.1.entries =
        savedState.1.entries := by decide +kernel
  have hclean : ¬ sampleDirectory.Litters savedState.1
      (sampleDirectory.answer (.save ⟨["a"]⟩ secondContent) ⟨1⟩ savedState).2.1 := by
    rintro ⟨place, hnone, hdir, -⟩
    unfold Disk.at? at hnone hdir
    rw [hentries, hnone] at hdir
    cases hdir
  exact ⟨vacant_vacantDisk, hshown, hroom, hfailed,
    (trace_of_failed sampleDirectory vacantDisk vacant_vacantDisk (fun n => ⟨n⟩) savedFirst
      askedLater (.save ⟨["a"]⟩ secondContent) hshown hroom ⟨1⟩ savedState _ rfl rfl hfailed).1
      hclean _ _⟩

/-- A value is stored that can be moved. -/
def movableState : Disk × Nat :=
  sampleDirectory.backend.after (fun n => ⟨n⟩) [.save ⟨["s"]⟩ (.ofBytes [1])] 0 (vacantDisk, 0)

/-- A move fails because no call accepts the last name of the new key, and leaves the directory
above. Without the move a value is saved in the place of the directory, and after it none is. -/
theorem save_after_failed_move :
    let failed := sampleDirectory.answer (.move ⟨["s"]⟩ ⟨["new", "\x00"]⟩) ⟨1⟩ movableState
    let later := [Request.save ⟨["new"]⟩ (.ofBytes [2])]
    failed.1.result = .error (.io ⟨["s"]⟩ DiskError.nulInName.toIo) ∧
      sampleDirectory.backend.observe (fun n => ⟨n⟩) later 0 failed.2 ≠
        sampleDirectory.backend.observe (fun n => ⟨n⟩) later 0 movableState := by
  intro failed later
  refine ⟨by decide +kernel, fun h => ?_⟩
  have hsaved := congrArg (List.map fun o => o.result.isOk) h
  exact absurd hsaved (by decide +kernel)

end Directory

end BlobStore
