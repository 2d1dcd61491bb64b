import BlobStore.Database.File
import BlobStore.Proofs.Database.Values
import BlobStore.Proofs.Disk.Shape

/-!
# Databases opened again

The first time that a database is opened its file may be made, and what other databases left beside
it may be removed. After that nothing stands beside the file between the requests, and its path
leads to it. Whoever opens the name then finds the file and what it holds, and changes nothing. What
a change has written to the file is found by the next who opens it.

## Main definitions

* `Disk.Distinct`, `Disk.Alone`: files that can be told apart by their numbers
* `DatabaseFile.AtRest`: nothing stands beside the file of a name, and its path leads to it
* `DatabaseFile.Keeps`: the file holds a database

## Main results

* `DatabaseFile.keeps_of_ofName`: the file that was opened holds the database that was found
* `DatabaseFile.Keeps.ofName`: opened again, it is found to hold what it held
* `DatabaseFile.Keeps.answer`: it goes on to hold what requests make of the database
* `DatabaseFile.answer_congr`: two files that hold the same answer alike
-/

namespace BlobStore

/-! ## Files told apart by their numbers -/

namespace Disk

variable {d d' : Disk} {p : DiskPath} {place : Place} {number : Nat}

/-- No two files share a number. -/
def Distinct (d : Disk) : Prop :=
  ∀ place place' file file', d.at? place = some (.file file) → d.at? place' = some (.file file') →
    file.number = file'.number → place = place'

/-- No file but the one at a place has the number. -/
def Alone (d : Disk) (number : Nat) (place : Place) : Prop :=
  ∀ other file, d.at? other = some (.file file) → file.number = number → other = place

theorem Includes.alone (h : d.Includes d') (ha : d.Alone number place) : d'.Alone number place :=
  fun other file hat => ha other file (h other _ hat)

theorem SameShape.alone (h : d.SameShape d') (ha : d.Alone number place) :
    d'.Alone number place := by
  intro other file' hat hnumber
  rcases h.cases other with ⟨hsame, hno⟩ | ⟨file, file₂, he, he', hn⟩
  · exact absurd (hsame ▸ hat) (hno file')
  · rw [hat] at he'
    cases he'
    exact ha other file he (hn.symm.trans hnumber)

/-- What is removed is missing, and nothing else. -/
theorem includes_of_removeFile (h : d.removeFile p = .ok d') : d.Includes d' := by
  unfold removeFile at h
  split at h
  · cases h
  · cases h
  · split at h
    · cases h
    · cases h
    · split at h
      · cases h
      · cases h
        intro other entry hat
        rw [at?_erase (by simp)] at hat
        split at hat
        · cases hat
        · exact hat

end Disk

/-! ## Bytes of files -/

namespace Database

/-- One byte is not a database. -/
theorem one_lt_length {bytes : Bytes} {d : Database} (h : ofImage bytes = .ok d) :
    1 < bytes.length := by
  by_contra hshort
  have hhead : (padded 100 bytes).take 16 ≠ magic := by
    intro he
    have hzero : (padded 100 bytes)[1]? = some 0 := by
      rcases bytes with _ | ⟨b, _ | ⟨c, rest⟩⟩
      · rfl
      · rfl
      · simp at hshort
    have hbyte : ((padded 100 bytes).take 16)[1]? = some 0 := by
      rw [List.getElem?_take_of_lt (by decide), hzero]
    rw [he] at hbyte
    exact absurd hbyte (by decide)
  unfold ofImage checkHead at h
  simp [hhead] at h

theorem one_lt_length_image (d : Database) : 1 < d.image.length := by
  have hpage : pageSize ≤ (padded pageSize d.firstPage).length := by
    unfold padded zeros
    rw [List.length_append, List.length_replicate]
    omega
  unfold image
  rw [List.length_append]
  exact Nat.lt_of_lt_of_le (by decide) (hpage.trans (Nat.le_add_right _ _))

end Database

namespace DatabaseFile

variable {name : DatabaseName} {f : DatabaseFile} {d d' : Disk} {database database' : Database}
  {now : Time} {place : Place}

/-! ## What is found in a file -/

theorem decode_image (database : Database) : decode database database.image = .ok database :=
  if_pos rfl

/-- What is found in some bytes goes on to be found there. -/
theorem decode_found {written found : Database} {bytes : Bytes}
    (h : decode written bytes = .ok found) : decode found bytes = .ok found := by
  unfold decode at h ⊢
  split
  · rfl
  · split at h
    · rename_i hne heq
      exact absurd (Except.ok.inj h ▸ heq) hne
    · exact h

theorem one_lt_length_of_decode {written found : Database} {bytes : Bytes}
    (h : decode written bytes = .ok found) : 1 < bytes.length := by
  unfold decode at h
  split at h
  · rename_i heq
    exact heq ▸ written.one_lt_length_image
  · exact Database.one_lt_length h

theorem includes_clear (d : Disk) (place : Place) : d.Includes (clear d place) := by
  unfold clear
  cases h : d.removeFile (pathOf place) with
  | error e => exact .refl d
  | ok d' => exact Disk.includes_of_removeFile h

theorem sound_clear (h : d.Sound) (place : Place) : (clear d place).Sound := by
  unfold clear
  cases hr : d.removeFile (pathOf place) with
  | error e => exact h
  | ok d' => exact h.removeFile hr

/-! ## Changes -/

theorem isAtPlace_iff :
    f.isAtPlace d ↔ ∃ file, d.at? f.place = some (.file file) ∧ file.number = f.number := by
  unfold isAtPlace
  rcases d.at? f.place with _ | ⟨_ | file | _⟩ <;> simp

/-- Why no change can be written to a file. -/
def refusal? (f : DatabaseFile) (d : Disk) : Option DatabaseError :=
  if !f.writable || !f.isAtPlace d then some .readOnly
  else if !f.canJournal d then some .noJournal
  else none

theorem commit_eq (f : DatabaseFile) (database : Database) (now : Time) (d : Disk) :
    f.commit database now d =
      match f.refusal? d with
      | some e => .error e
      | none => .ok (clear (d.mapFile f.number (fun _ => database.image) now) f.journal) := by
  unfold commit refusal?
  split
  · rfl
  · split <;> rfl

/-- What is written is what stands in the file, if the file is there at all. -/
theorem file_commit (hs : d.Sound) (ha : d.Alone f.number f.place)
    (hc : f.commit database now d = .ok d') :
    d'.Sound ∧ d'.Alone f.number f.place ∧
      ∀ file, d'.at? f.place = some (.file file) →
        file.number = f.number ∧ file.bytes = database.image := by
  rw [commit_eq] at hc
  cases hr : f.refusal? d with
  | some e => simp [hr] at hc
  | none =>
    rw [hr] at hc
    obtain rfl := Except.ok.inj hc
    obtain ⟨file, hat, hnumber⟩ : ∃ file, d.at? f.place = some (.file file) ∧
        file.number = f.number := by
      unfold refusal? at hr
      split at hr
      · cases hr
      · rename_i hplace
        exact isAtPlace_iff.mp (by simp_all)
    have hroot : f.place ≠ [] := by
      intro he
      rw [he] at hat
      cases hat
    have hchanged := hs.changed_mapFile hat (fun other file' ho he => ha other file' ho
      (he.trans hnumber)) hroot (fun _ => database.image) now
    rw [hnumber] at hchanged
    have hshape := hs.sameShape_mapFile f.number (fun _ => database.image) now
    have hincludes := includes_clear (d.mapFile f.number (fun _ => database.image) now) f.journal
    refine ⟨sound_clear hchanged.sound _, hincludes.alone (hshape.alone ha), ?_⟩
    intro file' hat'
    have hhere := hchanged.here
    rw [hincludes _ _ hat'] at hhere
    cases hhere
    exact ⟨rfl, rfl⟩

theorem isAtPlace_eq (h : d.SameShape d') (f : DatabaseFile) : f.isAtPlace d' = f.isAtPlace d := by
  unfold isAtPlace
  rcases h.cases f.place with ⟨hsame, -⟩ | ⟨file, file', hat, hat', hnumber⟩
  · rw [hsame]
  · simp only [hat, hat', hnumber]

/-- Whether a change can be written does not depend on what files hold. -/
theorem refusal?_eq (h : d.SameShape d') (f : DatabaseFile) : f.refusal? d' = f.refusal? d := by
  have hjournal : f.canJournal d' = f.canJournal d := by
    unfold canJournal
    rw [h.locate]
    rcases h.cases f.journal with ⟨hsame, -⟩ | ⟨file, file', hat, hat', -⟩
    · rw [hsame]
    · rw [hat, hat']
      cases d.locate (pathOf f.journal) <;> rfl
  unfold refusal?
  rw [isAtPlace_eq h, hjournal]

/-! ## Files at rest -/

/-- The path of a name leads to its file, and nothing stands beside it. -/
structure AtRest (name : DatabaseName) (f : DatabaseFile) (d : Disk) : Prop where
  stands : f.isAtPlace d
  leads : resolve d name.path = some f.place
  model : hasModel name d
  journal : (d.stat (pathOf f.journal)).toBool = false
  log : (d.stat (pathOf f.log)).toBool = false
  /-- There is no journal that could be removed. -/
  swept : (d.removeFile (pathOf f.journal)).toBool = false

instance decidableAtRest (name : DatabaseName) (f : DatabaseFile) (d : Disk) :
    Decidable (AtRest name f d) :=
  decidable_of_iff
    (f.isAtPlace d ∧ resolve d name.path = some f.place ∧ hasModel name d ∧
      (d.stat (pathOf f.journal)).toBool = false ∧ (d.stat (pathOf f.log)).toBool = false ∧
      (d.removeFile (pathOf f.journal)).toBool = false)
    ⟨fun ⟨ha, hl, hm, hj, hw, hs⟩ => ⟨ha, hl, hm, hj, hw, hs⟩,
      fun ⟨ha, hl, hm, hj, hw, hs⟩ => ⟨ha, hl, hm, hj, hw, hs⟩⟩

theorem isPresent_eq_false (h : (d.stat (pathOf place)).toBool = false) :
    isPresent d place = false := by
  unfold isPresent
  cases hs : d.stat (pathOf place) with
  | error e => rfl
  | ok entry => simp [hs, Except.toBool] at h

theorem clear_eq (h : (d.removeFile (pathOf place)).toBool = false) : clear d place = d := by
  unfold clear
  cases hr : d.removeFile (pathOf place) with
  | error e => rfl
  | ok d' => simp [hr, Except.toBool] at h

section

variable (h : d.SameShape d')
include h

theorem walk_eq {jump jump' : Place → DiskPath → List FileName → Option Place}
    (hjump : ∀ here target rest, jump' here target rest = jump here target rest) (here : Place)
    (pieces : List FileName) : walk d' jump' here pieces = walk d jump here pieces := by
  induction pieces generalizing here with
  | nil => rfl
  | cons piece rest ih =>
    unfold walk
    simp only [ih, h.locate, hjump]
    rcases h.cases (here ++ [piece]) with ⟨hsame, -⟩ | ⟨file, file', hat, hat', -⟩
    · rw [hsame]
    · rw [hat, hat']
      rcases d.locate (pathOf (here ++ [piece])) with e | _
      · cases e <;> rfl
      · rfl

theorem resolve_eq (path : String) : resolve d' path = resolve d path := by
  have hwalks : ∀ n here pieces, walks d' n here pieces = walks d n here pieces := by
    intro n
    induction n with
    | zero => exact walk_eq h fun _ _ _ => rfl
    | succ n ih =>
      unfold walks
      exact walk_eq h fun here target rest => ih _ _
  unfold resolve
  simp only [hwalks, h.start]

/-- Files stay at rest on disks of one shape. -/
theorem AtRest.sameShape (hr : AtRest name f d) : AtRest name f d' where
  stands := (isAtPlace_eq h f).trans hr.stands
  leads := (resolve_eq h name.path).trans hr.leads
  model := by
    have hmodel := hr.model
    unfold hasModel at hmodel ⊢
    split
    · rename_i path ho
      rw [h.stat]
      simpa only [ho] using hmodel
    · rfl
  journal := (h.stat _).trans hr.journal
  log := (h.stat _).trans hr.log
  swept := (h.removeFile _).trans hr.swept

end

/-- While nothing stands beside the file, only the file is written to. -/
theorem AtRest.commit_eq (hr : AtRest name f d) (hs : d.Sound) (database : Database) (now : Time) :
    f.commit database now d =
      match f.refusal? d with
      | some e => .error e
      | none => .ok (d.mapFile f.number (fun _ => database.image) now) := by
  have hshape := hs.sameShape_mapFile f.number (fun _ => database.image) now
  rw [DatabaseFile.commit_eq, clear_eq (hr.sameShape hshape).swept]

theorem AtRest.commit (hr : AtRest name f d) (hs : d.Sound)
    (hc : f.commit database now d = .ok d') : d.SameShape d' := by
  rw [hr.commit_eq hs] at hc
  split at hc
  · cases hc
  · obtain rfl := Except.ok.inj hc
    exact hs.sameShape_mapFile _ _ now

/-- A database whose file is at rest is read as it stands. -/
theorem AtRest.ofName_eq (hr : AtRest name f d)
    (hmode : f.writable = (name.access != .readOnly && !name.immutable) ∧
      f.immutable = name.immutable)
    {file : DiskFile} (hat : d.at? f.place = some (.file file)) (hnumber : file.number = f.number)
    {written : Nat → Database} {found : Database}
    (hfound : decode (written file.number) file.bytes = .ok found) (now : Time) :
    DatabaseFile.ofName name now written d = (.ok (f, found), d) := by
  obtain ⟨hwritable, himmutable⟩ := hmode
  have hf : DatabaseFile.mk file.number f.place (name.access != .readOnly && !name.immutable)
      name.immutable = f := by
    cases f
    simp_all
  have hlong : ¬ file.bytes.length ≤ 1 := Nat.not_le.mpr (one_lt_length_of_decode hfound)
  have hload : f.load (written file.number) file.bytes now d = (.ok found, d) := by
    unfold load recover read
    simp only [if_neg hlong, isPresent_eq_false hr.journal, isPresent_eq_false hr.log,
      Bool.not_false, Bool.or_true, Bool.and_false, if_true, hfound]
  unfold DatabaseFile.ofName fileAt
  simp only [hr.leads, hr.model, Bool.not_true, Bool.false_eq_true, if_false, hat, hf, hload,
    Except.map]

/-! ## Files that hold a database -/

/-- The file of a name is at rest, and the database is found in it. -/
structure Keeps (name : DatabaseName) (f : DatabaseFile) (d : Disk) (database : Database) :
    Prop where
  sound : d.Sound
  alone : d.Alone f.number f.place
  atRest : AtRest name f d
  /-- The file is used as the name says. -/
  mode : f.writable = (name.access != .readOnly && !name.immutable) ∧ f.immutable = name.immutable
  holds : ∃ file, d.at? f.place = some (.file file) ∧ file.number = f.number ∧
    decode database file.bytes = .ok database

/-! ## The first opening -/

/-- The file that is found stands at the place, and no other has its number. One that is there is
taken as it is. -/
theorem fileAt_ok {access : DatabaseAccess} {file : DiskFile} (hs : d.Sound) (hd : d.Distinct)
    (h : fileAt access place now d = .ok (file, d')) :
    d'.Sound ∧ d'.Alone file.number place ∧ d'.at? place = some (.file file) ∧
      ∀ old, d.at? place = some (.file old) → file = old ∧ d' = d := by
  unfold fileAt at h
  rcases hat : d.at? place with _ | ⟨_ | old | _⟩
  case some.directory | some.link => simp [hat] at h
  case some.file =>
    rw [hat] at h
    cases h
    exact ⟨hs, fun other file' ho he => hd _ _ _ _ ho hat he, hat, fun _ he => by
      cases he
      exact ⟨rfl, rfl⟩⟩
  case none =>
    have hplace : place ≠ [] := by
      rintro rfl
      cases hat
    simp only [hat, Disk.fileAt, if_true, Except.mapError] at h
    split at h
    · cases h
      have hat' := Disk.at?_put (d := d) hplace (.file ⟨d.fresh, [], now, now⟩)
      refine ⟨hs.enroll hplace rfl, ?_, (hat' place).trans (if_pos rfl), fun _ he => by cases he⟩
      intro other file ho hnumber
      by_contra hne
      have hold : d.at? other = some (.file file) := by
        rw [← ho]
        exact ((hat' other).trans (if_neg (Ne.symm hne))).symm
      exact absurd (hs.numbered other file hold) (hnumber ▸ Nat.lt_irrefl _)
    · cases h

/-- A new database is empty, and was written to the file. -/
theorem create_ok (hs : d.Sound) (h : f.create now d = (.ok database, d')) :
    database = Database.empty ∧
      ∃ d₁, d.Includes d₁ ∧ d₁.Sound ∧ f.commit Database.empty now d₁ = .ok d' := by
  unfold create at h
  obtain ⟨hincludes, hsound⟩ : d.Includes (if f.writable && isPresent d f.journal
      then clear d f.journal else d) ∧ (if f.writable && isPresent d f.journal
      then clear d f.journal else d).Sound := by
    split
    · exact ⟨includes_clear d _, sound_clear hs _⟩
    · exact ⟨.refl d, hs⟩
  generalize (if f.writable && isPresent d f.journal then clear d f.journal else d) = d₁
    at h hincludes hsound
  simp only at h
  split at h
  · cases h
  · rename_i d₂ hcleared
    obtain ⟨hincludes₂, hsound₂⟩ : d₁.Includes d₂ ∧ d₂.Sound := by
      split at hcleared
      · exact ⟨Disk.includes_of_removeFile hcleared, hsound.removeFile hcleared⟩
      · cases hcleared
        exact ⟨.refl d₁, hsound⟩
    split at h
    · cases h
    · rename_i d₃ hcommit
      cases h
      exact ⟨rfl, d₂, fun other entry hat => hincludes _ _ (hincludes₂ _ _ hat), hsound₂, hcommit⟩

theorem recover_ok (h : f.recover d = .ok d') : d' = d ∨ d' = clear d f.journal := by
  unfold recover at h
  split at h
  · cases h
    exact Or.inl rfl
  · simp only at h
    split at h
    · cases h
      exact Or.inl rfl
    · cases h
    · cases h
    · cases h
    · cases h
      exact Or.inr rfl

theorem read_ok {written : Database} {bytes : Bytes}
    (h : f.read written bytes d = (.ok database, d')) :
    decode written bytes = .ok database ∧ d' = d := by
  unfold read at h
  simp only at h
  split at h
  · cases h
  · cases h
  · split at h
    · rename_i found hi
      cases h
      exact ⟨hi, rfl⟩
    · cases h

/-- What is left at the place of the file after a removal is the file. -/
theorem file_of_includes (hi : d.Includes d') (hstands : f.isAtPlace d') {file : DiskFile}
    (hat : d.at? f.place = some (.file file)) : d'.at? f.place = some (.file file) := by
  obtain ⟨left, hleft, -⟩ := isAtPlace_iff.mp hstands
  have hold := hi _ _ hleft
  rw [hat] at hold
  cases hold
  exact hleft

/-- A new database is made in a file without bytes. What is found in others is what stands there,
and only something beside the file may be gone. -/
theorem load_ok {written : Database} {bytes : Bytes} (hs : d.Sound)
    (h : f.load written bytes now d = (.ok database, d')) :
    (bytes.length ≤ 1 ∧ f.create now d = (.ok database, d')) ∨
      (decode written bytes = .ok database ∧ d.Includes d' ∧ d'.Sound) := by
  unfold load at h
  split at h
  · rename_i hshort
    exact Or.inl ⟨hshort, h⟩
  · split at h
    · cases h
    · rename_i d₁ hrecover
      obtain ⟨hfound, rfl⟩ := read_ok h
      refine Or.inr ⟨hfound, ?_⟩
      rcases recover_ok hrecover with rfl | rfl
      · exact ⟨.refl _, hs⟩
      · exact ⟨includes_clear _ _, sound_clear hs _⟩

/-- The file that is opened stands where the path of the name leads, and is used as the name says.
-/
theorem ofName_ok {written : Nat → Database}
    (h : ofName name now written d = (.ok (f, database), d')) :
    resolve d name.path = some f.place ∧
      (f.writable = (name.access != .readOnly && !name.immutable) ∧
        f.immutable = name.immutable) ∧
      ∃ file d₁, fileAt name.access f.place now d = .ok (file, d₁) ∧ file.number = f.number ∧
        f.load (written f.number) file.bytes now d₁ = (.ok database, d') := by
  unfold ofName at h
  cases hresolve : resolve d name.path with
  | none => simp [hresolve] at h
  | some place =>
    simp only [hresolve] at h
    split at h
    · cases h
    · split at h
      · cases h
      · rename_i file d₁ hfile
        generalize hload : load _ _ _ _ _ = loaded at h
        obtain ⟨_ | found, d₂⟩ := loaded
        · cases h
        · cases h
          exact ⟨rfl, ⟨rfl, rfl⟩, file, d₁, hfile, rfl, hload⟩

/-- The file that was opened holds the database that was found in it. A database that was there is
found as it stands, and stays there. -/
theorem keeps_of_ofName {written : Nat → Database} (hs : d.Sound) (hd : d.Distinct)
    (h : ofName name now written d = (.ok (f, database), d')) (hr : AtRest name f d') :
    resolve d name.path = some f.place ∧ Keeps name f d' database ∧
      ∀ file, d.at? f.place = some (.file file) → 1 < file.bytes.length →
        d'.at? f.place = some (.file file) ∧
          decode (written f.number) file.bytes = .ok database := by
  obtain ⟨hresolve, hmode, file, d₁, hfile, hnumber, hload⟩ := ofName_ok h
  obtain ⟨hsound, halone, hat, hold⟩ := fileAt_ok hs hd hfile
  rw [hnumber] at halone
  rcases load_ok hsound hload with ⟨hshort, hcreate⟩ | ⟨hfound, hincludes, hsound'⟩
  · obtain ⟨rfl, d₂, hincludes, hsound₂, hcommit⟩ := create_ok hsound hcreate
    obtain ⟨hsound', halone', hstood⟩ := file_commit hsound₂ (hincludes.alone halone) hcommit
    obtain ⟨file', hat', -⟩ := isAtPlace_iff.mp hr.stands
    obtain ⟨hnumber', hbytes⟩ := hstood file' hat'
    refine ⟨hresolve, ⟨hsound', halone', hr, hmode, file', hat', hnumber', hbytes ▸ decode_image _⟩,
      fun old ho hlong => ?_⟩
    obtain ⟨rfl, -⟩ := hold old ho
    exact absurd hlong (Nat.not_lt_of_le hshort)
  · have hat' := file_of_includes hincludes hr.stands hat
    refine ⟨hresolve, ⟨hsound', hincludes.alone halone, hr, hmode, file, hat', hnumber,
      decode_found hfound⟩, fun old ho _ => ?_⟩
    obtain ⟨rfl, -⟩ := hold old ho
    exact ⟨hat', hfound⟩

namespace Keeps

/-! ## Later openings -/

/-- **Openings.** Opened again, the file is found to hold what it held, and nothing changes. -/
theorem ofName (h : Keeps name f d database) {written : Nat → Database}
    (hw : written f.number = database) (now : Time) :
    DatabaseFile.ofName name now written d = (.ok (f, database), d) := by
  obtain ⟨file, hat, hnumber, hfound⟩ := h.holds
  refine h.atRest.ofName_eq h.mode hat hnumber ?_ now
  rw [hnumber, hw]
  exact hfound

/-! ## Answers -/

/-- **Requests.** The file goes on to hold what requests make of the database. -/
theorem answer {s : Disk × Database} (h : Keeps name f s.1 s.2) (path : String) (r : Request)
    (now : Time) : Keeps name f (f.answer path r now s).2.1 (f.answer path r now s).2.2 := by
  obtain ⟨d, database⟩ := s
  unfold DatabaseFile.answer
  dsimp only at h ⊢
  split
  · exact h
  · cases hcommit : f.commit (database.answer r now).2 now d with
    | error e => exact h
    | ok d' =>
      obtain ⟨hsound, halone, hstood⟩ := file_commit h.sound h.alone hcommit
      have hr := h.atRest.sameShape (h.atRest.commit h.sound hcommit)
      obtain ⟨file, hat, -⟩ := isAtPlace_iff.mp hr.stands
      obtain ⟨hnumber, hbytes⟩ := hstood file hat
      exact ⟨hsound, halone, hr, h.mode, file, hat, hnumber, hbytes ▸ decode_image _⟩

end Keeps

/-- **Files.** Two files of one shape that hold the same answer alike, if the times take the same
room, and hold the same afterwards on disks of one shape. -/
theorem answer_congr (hr : AtRest name f d) (hs : d.Sound) (hs' : d'.Sound)
    (h : d.SameShape d') (hv : database.values = database'.values) {now' : Time}
    (ht : integerCode (Database.millis now) = integerCode (Database.millis now')) (path : String)
    (r : Request) :
    (f.answer path r now (d, database)).1.result.map r.shown =
        (f.answer path r now' (d', database')).1.result.map r.shown ∧
      (f.answer path r now (d, database)).2.1.SameShape
        (f.answer path r now' (d', database')).2.1 ∧
      (f.answer path r now' (d', database')).2.1.Sound ∧
      (f.answer path r now (d, database)).2.2.values =
        (f.answer path r now' (d', database')).2.2.values := by
  obtain ⟨hshown, hvalues, hchanges⟩ := Database.answer_congr hv ht r
  unfold DatabaseFile.answer
  dsimp only
  by_cases hsame : (database.answer r now).2.changes = database.changes
  · rw [if_pos hsame, if_pos (hchanges.mp hsame)]
    exact ⟨hshown, h, hs', hv⟩
  · rw [if_neg hsame, if_neg (hsame ∘ hchanges.mpr)]
    simp only [hr.commit_eq hs, (hr.sameShape h).commit_eq hs', refusal?_eq h]
    cases f.refusal? d with
    | some e => exact ⟨rfl, h, hs', hv⟩
    | none =>
      have hshape := hs.sameShape_mapFile f.number (fun _ => (database.answer r now).2.image) now
      have hshape' :=
        hs'.sameShape_mapFile f.number (fun _ => (database'.answer r now').2.image) now'
      have hsound' := hs'.mapFile f.number (fun _ => (database'.answer r now').2.image) now'
      exact ⟨hshown, (hshape.symm.trans h).trans hshape', hsound', hvalues⟩

end DatabaseFile

end BlobStore
