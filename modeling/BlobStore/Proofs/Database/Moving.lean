import BlobStore.Proofs.Content
import BlobStore.Proofs.Database.Agreement

/-!
# What a move does to the values of a database

A move asks whether both keys are the same, and then works on the rows of their texts: the row of
the destination is removed, and the row of the source is given its text. Two different keys with one
text pass the question and name one row, which is removed before it could be moved. Among keys
without delimiters in their segments these are the root and the key of one empty segment.

## Main definitions

* `Key.Blank`, `Key.Clashes`: keys with the empty text, and two of them
* `Backend.MovePreservesValues`: what a move does to all values

## Main results

* `Key.Plain.text_eq_iff`: which keys have one text
* `Database.stored_rename`: the values under all texts after a row was given another text
* `Database.move_preserves_values`: moves in memory and in a file
* `Database.move_loses_value`: a move that ends well and loses the value
-/

namespace BlobStore

/-! ## Keys of one text -/

namespace Key

variable {a b : Key}

/-- A key with the empty text. -/
def Blank (k : Key) : Prop := k = root ∨ k = ⟨[""]⟩

instance decidableBlank (k : Key) : Decidable k.Blank := inferInstanceAs (Decidable (_ ∨ _))

/-- Different keys that share the empty text. -/
def Clashes (a b : Key) : Prop := a ≠ b ∧ a.Blank ∧ b.Blank

instance decidableClashes (a b : Key) : Decidable (a.Clashes b) :=
  inferInstanceAs (Decidable (_ ∧ _ ∧ _))

theorem Blank.text_eq (h : a.Blank) : a.text = "" := by
  rcases h with rfl | rfl <;> rfl

theorem Plain.blank_of_text (ha : a.Plain) (h : a.text = "") : a.Blank := by
  by_contra hn
  exact ha.text_ne_empty (fun hr => hn (Or.inl hr)) (fun he => hn (Or.inr he)) h

/-- Keys without delimiters in their segments have one text only if they are the same key, or if
that text is empty. -/
theorem Plain.text_eq_iff (ha : a.Plain) (hb : b.Plain) :
    a.text = b.text ↔ a = b ∨ a.Clashes b := by
  constructor
  · intro h
    by_cases he : a = b
    · exact Or.inl he
    · right
      by_cases hblank : a.Blank
      · exact ⟨he, hblank, hb.blank_of_text (h ▸ hblank.text_eq)⟩
      · have htext : a.text ≠ "" := fun ht => hblank (ha.blank_of_text ht)
        have hother : ¬ b.Blank := fun ht => htext (h.trans ht.text_eq)
        obtain ⟨har, hae⟩ := not_or.mp hblank
        obtain ⟨hbr, hbe⟩ := not_or.mp hother
        exact absurd (Textual.text_inj ⟨ha, har, hae⟩ ⟨hb, hbr, hbe⟩ h) he
  · rintro (rfl | ⟨-, hblank, hother⟩)
    · rfl
    · rw [hblank.text_eq, hother.text_eq]

end Key

/-! ## Moves -/

/-- What a move does to all values: a value that is not there is reported and nothing changes, and
one that is there is afterwards under its new key only, while the other keys keep theirs. Two blank
keys are excepted. A move from the one to the other loses the value, and the key that shares the
text of the source or the destination has no value of its own to keep. Whether there is a value
cannot be asked of a key whose text is too long. -/
structure Backend.MovePreservesValues {σ : Type} (b : Backend σ) (source destination : Key)
    (now later : Time) (s : σ) (reply : Reply Unit) (s' : σ) : Prop where
  found : b.fetch source now s = .error (.notFound source) ∨
    (∃ bytes, b.fetch source now s = .ok bytes) ∨
    ∃ reason, b.fetch source now s = .error (.backend source reason)
  absent : b.fetch source now s = .error (.notFound source) →
    reply = .error (.notFound source) ∧ s' = s
  failed : ∀ e, reply.result = .error e → s' = s
  carried : reply.result = .ok () → ∃ bytes, b.fetch source now s = .ok bytes
  arrived : reply.result = .ok () → ¬ source.Clashes destination →
    b.fetch destination later s' = b.fetch source now s
  vacated : reply.result = .ok () → source ≠ destination →
    b.fetch source later s' = .error (.notFound source)
  kept : reply.result = .ok () → ∀ k : Key, k.Plain → k ≠ source → k ≠ destination →
    source = destination ∨ ¬ k.Clashes source ∧ ¬ k.Clashes destination →
      b.fetch k later s' = b.fetch k now s
  lost : reply.result = .ok () → source.Clashes destination →
    b.fetch destination later s' = .error (.notFound destination)

namespace Database

variable {d : Database} {source destination k : Key}

/-- A text given to its own row takes the row away. -/
theorem rows_rename_self {text : String} {old : Row} (h : d.rows.get? text = some old)
    (now : Time) :
    ∃ after : Database, d.rename text text now = some after ∧ after.rows = d.rows.erase text := by
  have hgone : (d.erase text).rows.get? text = none := by
    rw [rows_erase, OrderedMap.get?_erase, if_pos rfl]
  unfold rename
  simp only [h, hgone]
  exact ⟨_, rfl, rows_erase text⟩

/-- After a row was given another text its bytes are under that text and no longer under its own.
If the text was its own, they are nowhere. -/
theorem stored_rename {source : String} {old : Row} (h : d.rows.get? source = some old)
    (destination : String) (now : Time) :
    ∃ after, d.rename source destination now = some after ∧ ∀ text, after.stored text =
      if source ≠ destination ∧ text = destination then some old.bytes
      else if text = source then none else d.stored text := by
  by_cases hne : source = destination
  · subst hne
    obtain ⟨after, hafter, hrows⟩ := rows_rename_self h now
    refine ⟨after, hafter, fun text => ?_⟩
    rw [if_neg (fun hn => hn.1 rfl), stored, hrows, OrderedMap.get?_erase]
    by_cases ht : text = source
    · simp [ht]
    · simp [ht, Ne.symm ht, stored]
  · obtain ⟨after, row, hafter, hbytes, hrows⟩ := rows_rename h hne now
    refine ⟨after, hafter, fun text => ?_⟩
    rw [stored_of_put hrows, OrderedMap.get?_erase, OrderedMap.get?_erase, hbytes]
    by_cases hd : text = destination
    · simp [hd, hne]
    · by_cases ht : text = source
      · simp [ht, hne, Ne.symm hne]
      · simp [hd, ht, Ne.symm hd, Ne.symm ht, stored]

theorem fetch_eq (path : String) (now : Time) :
    (backend path).fetch k now d =
      match tooLong? k.text.utf8ByteSize with
      | some reason => .error (.backend k reason)
      | none => (d.contents k).elim (.error (.notFound k)) .ok := by
  cases h : tooLong? k.text.utf8ByteSize with
  | some reason =>
    have hrefusal : d.refusal? now (.value k) = some reason := h
    have hanswer := answer_of_refusal hrefusal
    simp only [Backend.fetch, backend, hanswer]
    rfl
  | none =>
    have haccepted : d.refusal? now (.value k) = none := h
    have hanswer := answer_of_accepted haccepted
    simp only [Backend.fetch, backend, hanswer, perform, contents, stored]
    cases d.rows.get? k.text with
    | none => rfl
    | some row => simp [Reply.orNotFound, Reply.ok, Except.bind, Except.mapError]

theorem fetch_of_some {path : String} {now : Time} {bytes : Bytes}
    (hk : tooLong? k.text.utf8ByteSize = none) (h : d.contents k = some bytes) :
    (backend path).fetch k now d = .ok bytes := by
  rw [fetch_eq, hk, h]
  rfl

theorem fetch_of_none {path : String} {now : Time} (hk : tooLong? k.text.utf8ByteSize = none)
    (h : d.contents k = none) : (backend path).fetch k now d = .error (.notFound k) := by
  rw [fetch_eq, hk, h]
  rfl

/-- What is stored under a key is told apart by a fetch, unless its text is too long. -/
theorem fetch_cases (path : String) (k : Key) (now : Time) (d : Database) :
    (tooLong? k.text.utf8ByteSize = none ∧
      ((d.contents k = none ∧ (backend path).fetch k now d = .error (.notFound k)) ∨
        ∃ bytes, d.contents k = some bytes ∧ (backend path).fetch k now d = .ok bytes)) ∨
      ∃ reason, (backend path).fetch k now d = .error (.backend k reason) := by
  cases hk : tooLong? k.text.utf8ByteSize with
  | some reason =>
    refine Or.inr ⟨reason, ?_⟩
    rw [fetch_eq, hk]
  | none =>
    refine Or.inl ⟨rfl, ?_⟩
    cases hc : d.contents k with
    | none => exact Or.inl ⟨rfl, fetch_of_none hk hc⟩
    | some bytes => exact Or.inr ⟨bytes, rfl, fetch_of_some hk hc⟩

theorem rows_of_contents_none (h : d.contents k = none) : d.rows.get? k.text = none :=
  Option.map_eq_none_iff.mp h

/-- A move is not refused only if the texts of its keys are not too long; that of the destination
counts if there is something to move. -/
theorem not_tooLong_of_accepted {now : Time}
    (h : d.refusal? now (.move source destination) = none) :
    tooLong? source.text.utf8ByteSize = none ∧ (source ≠ destination →
      (d.contents source).isSome → tooLong? destination.text.utf8ByteSize = none) := by
  obtain ⟨hsource, hrest⟩ := Option.or_eq_none_iff.mp h
  refine ⟨hsource, fun hne hstored => ?_⟩
  have hrow : d.rows.contains source.text := by
    simpa [contents, stored, OrderedMap.contains] using hstored
  rw [if_neg (by simp [hne, hrow])] at hrest
  exact (Option.or_eq_none_iff.mp hrest).1

/-- Without a value at the source only its text is looked at. -/
theorem refusal?_move_absent (h : d.contents source = none)
    (hsource : tooLong? source.text.utf8ByteSize = none) (destination : Key) (now : Time) :
    d.refusal? now (.move source destination) = none := by
  simp [refusal?, hsource, OrderedMap.contains, rows_of_contents_none h]

theorem perform_move_absent (h : d.contents source = none) (destination : Key) (now : Time) :
    d.perform (.move source destination) now = (.error (.notFound source), d) := by
  have hrow := rows_of_contents_none h
  simp only [perform, OrderedMap.contains, hrow, rename_eq_none hrow]
  split <;> rfl

theorem perform_move_self {bytes : Bytes} (h : d.contents source = some bytes) (now : Time) :
    d.perform (.move source source) now = (.ok (), d) := by
  obtain ⟨old, hrow, -⟩ := Option.map_eq_some_iff.mp h
  simp [perform, OrderedMap.contains, hrow]

theorem perform_move {bytes : Bytes} (h : d.contents source = some bytes)
    (hne : source ≠ destination) (now : Time) :
    ∃ after, d.perform (.move source destination) now = (.ok (), after) ∧
      ∀ k, after.contents k =
        if source.text ≠ destination.text ∧ k.text = destination.text then some bytes
        else if k.text = source.text then none else d.contents k := by
  obtain ⟨old, hrow, rfl⟩ := Option.map_eq_some_iff.mp h
  obtain ⟨after, hafter, hstored⟩ := stored_rename hrow destination.text now
  refine ⟨after, ?_, fun k => hstored k.text⟩
  simp only [perform, if_neg hne, hafter]

/-! ## Moves in memory -/

/-- A move whose source is found to be missing is not refused. -/
theorem refusal?_of_fetch_absent {path : String} {now : Time}
    (h : (backend path).fetch source now d = .error (.notFound source)) (destination : Key) :
    d.refusal? now (.move source destination) = none := by
  rcases fetch_cases path source now d with ⟨hs, ⟨hc, -⟩ | ⟨bytes, -, hf⟩⟩ | ⟨_, hf⟩
  · exact refusal?_move_absent hc hs destination now
  · rw [hf] at h
    cases h
  · rw [hf] at h
    cases h

/-- A move that fails changes nothing. -/
theorem preserves_failed (path : String) (now later : Time) {e : StorageError}
    (h : (backend path).fetch source now d = .error (.notFound source) → e = .notFound source) :
    (backend path).MovePreservesValues source destination now later d (.error e) d where
  found := by
    rcases fetch_cases path source now d with ⟨-, ⟨-, hf⟩ | ⟨bytes, -, hf⟩⟩ | hf
    · exact Or.inl hf
    · exact Or.inr (Or.inl ⟨bytes, hf⟩)
    · exact Or.inr (Or.inr hf)
  absent ha := ⟨by rw [h ha], rfl⟩
  failed _ _ := rfl
  carried := nofun
  arrived := nofun
  vacated := nofun
  kept := nofun
  lost := nofun

theorem preserves_self (path : String) (now later : Time)
    (hs : tooLong? source.text.utf8ByteSize = none) {bytes : Bytes}
    (h : d.contents source = some bytes) :
    (backend path).MovePreservesValues source source now later d (.ok ()) d where
  found := Or.inr (Or.inl ⟨bytes, fetch_of_some hs h⟩)
  absent ha := by
    rw [fetch_of_some hs h] at ha
    cases ha
  failed _ _ := rfl
  carried _ := ⟨bytes, fetch_of_some hs h⟩
  arrived _ _ := by rw [fetch_eq, fetch_eq]
  vacated _ hne := absurd rfl hne
  kept _ k _ _ _ _ := by rw [fetch_eq, fetch_eq]
  lost _ hc := absurd rfl hc.1

theorem preserves_other (path : String) (hs : source.Plain) (hd : destination.Plain)
    (now later : Time) (hsource : tooLong? source.text.utf8ByteSize = none)
    (hdestination : tooLong? destination.text.utf8ByteSize = none) {bytes : Bytes}
    (h : d.contents source = some bytes) (hne : source ≠ destination) {after : Database}
    (hafter : ∀ k, after.contents k =
      if source.text ≠ destination.text ∧ k.text = destination.text then some bytes
      else if k.text = source.text then none else d.contents k) :
    (backend path).MovePreservesValues source destination now later d (.ok ()) after where
  found := Or.inr (Or.inl ⟨bytes, fetch_of_some hsource h⟩)
  absent ha := by
    rw [fetch_of_some hsource h] at ha
    cases ha
  failed _ := nofun
  carried _ := ⟨bytes, fetch_of_some hsource h⟩
  arrived _ hc := by
    have htext : source.text ≠ destination.text :=
      fun ht => ((hs.text_eq_iff hd).mp ht).elim hne hc
    rw [fetch_of_some hsource h]
    refine fetch_of_some hdestination ?_
    rw [hafter, if_pos ⟨htext, rfl⟩]
  vacated _ _ := by
    refine fetch_of_none hsource ?_
    rw [hafter, if_neg (fun hn => hn.1 hn.2), if_pos rfl]
  kept _ k hk hks hkd hexcept := by
    obtain ⟨hcs, hcd⟩ := hexcept.resolve_left hne
    have hsource : k.text ≠ source.text :=
      fun ht => ((hk.text_eq_iff hs).mp ht).elim hks hcs
    have hdestination : k.text ≠ destination.text :=
      fun ht => ((hk.text_eq_iff hd).mp ht).elim hkd hcd
    rw [fetch_eq, fetch_eq, hafter, if_neg (fun hn => hdestination hn.2), if_neg hsource]
  lost _ hc := by
    have htext : source.text = destination.text := (hs.text_eq_iff hd).mpr (Or.inr hc)
    refine fetch_of_none hdestination ?_
    rw [hafter, if_neg (fun hn => hn.1 htext), if_pos htext.symm]

/-- A database does to all values what `Backend.MovePreservesValues` says. -/
theorem preserves_answer (path : String) (hs : source.Plain) (hd : destination.Plain)
    (now later : Time) (d : Database) :
    (backend path).MovePreservesValues source destination now later d
      (d.answer (.move source destination) now).1 (d.answer (.move source destination) now).2 := by
  cases hr : d.refusal? now (.move source destination) with
  | some reason =>
    rw [answer_of_refusal hr]
    refine preserves_failed path now later fun ha => ?_
    rw [refusal?_of_fetch_absent ha] at hr
    cases hr
  | none =>
    obtain ⟨hsource, hdestination⟩ := not_tooLong_of_accepted hr
    rw [answer_of_accepted hr]
    cases h : d.contents source with
    | none =>
      rw [perform_move_absent h destination now]
      exact preserves_failed path now later fun _ => rfl
    | some bytes =>
      by_cases hne : source = destination
      · subst hne
        rw [perform_move_self h now]
        exact preserves_self path now later hsource h
      · obtain ⟨after, hperform, hafter⟩ := perform_move h hne now
        rw [hperform]
        exact preserves_other path hs hd now later hsource (hdestination hne (by simp [h])) h hne
          hafter

/-- A value that is there is moved, if nothing would be too long. -/
theorem move_eq_ok {path : String} {now : Time} {bytes : Bytes}
    (h : (backend path).fetch source now d = .ok bytes)
    (hr : d.refusal? now (.move source destination) = none) :
    (d.answer (.move source destination) now).1.result = .ok () := by
  rw [answer_of_accepted hr]
  rcases fetch_cases path source now d with ⟨-, ⟨-, hf⟩ | ⟨stored, hc, -⟩⟩ | ⟨_, hf⟩
  · rw [hf] at h
    cases h
  · by_cases hne : source = destination
    · subst hne
      rw [perform_move_self hc now]
      rfl
    · obtain ⟨after, hperform, -⟩ := perform_move hc hne now
      rw [hperform]
      rfl
  · rw [hf] at h
    cases h

end Database

/-! ## Moves in a file -/

namespace DatabaseFile

variable {source destination : Key} {now later : Time}

theorem fetch_eq (f : DatabaseFile) (path : String) (k : Key) (now : Time) (s : Disk × Database) :
    (f.backend path).fetch k now s = (Database.backend path).fetch k now s.2 := by
  have hsame : (s.2.answer (.value k) now).2 = s.2 := by
    rcases s.2.answer_cases (.value k) now with ⟨reason, h⟩ | h <;> rw [h]
    rfl
  have h : (f.answer path (.value k) now s).1 = (s.2.answer (.value k) now).1 := by
    simp only [DatabaseFile.answer, hsame, if_true]
  simp only [Backend.fetch, backend, Database.backend, h]

/-- A database that stays as it was is not written to its file. -/
theorem answer_of_unchanged {f : DatabaseFile} {path : String} {r : Request} {s : Disk × Database}
    {reply : Reply r.Answer} (h : s.2.answer r now = (reply, s.2)) :
    f.answer path r now s = (reply, s) := by
  simp only [answer, h, if_true]

theorem answer_of_ok {f : DatabaseFile} {path : String} {r : Request} {s : Disk × Database}
    {value : r.Answer} (h : (f.answer path r now s).1.result = .ok value) :
    (s.2.answer r now).1.result = .ok value ∧
      (f.answer path r now s).2.2 = (s.2.answer r now).2 := by
  rcases f.answer_cases path r now s.1 s.2 with ⟨hreply, hafter⟩ | ⟨e, hfailed⟩
  · exact ⟨hreply ▸ h, hafter⟩
  · rw [show f.answer path r now s = _ from hfailed] at h
    cases h

/-- A file does to all values what its database does, or the move fails and nothing changes. -/
theorem preserves_answer (f : DatabaseFile) (path : String) (hs : source.Plain)
    (hd : destination.Plain) (now later : Time) (s : Disk × Database) :
    (f.backend path).MovePreservesValues source destination now later s
      (f.answer path (.move source destination) now s).1
      (f.answer path (.move source destination) now s).2 := by
  have h := Database.preserves_answer path hs hd now later s.2
  refine ⟨?found, ?absent, fun e he => answer_of_error he, ?carried, ?arrived, ?vacated, ?kept,
    ?lost⟩
  case found =>
    rw [fetch_eq]
    exact h.found
  case absent =>
    intro ha
    rw [fetch_eq] at ha
    have hanswer : s.2.answer (.move source destination) now = (.error (.notFound source), s.2) :=
      Prod.ext (h.absent ha).1 (h.absent ha).2
    rw [answer_of_unchanged hanswer]
    exact ⟨rfl, rfl⟩
  all_goals
    intro ho
    obtain ⟨hok, hafter⟩ := answer_of_ok ho
    simp only [fetch_eq, hafter]
  case carried => exact h.carried hok
  case arrived => exact h.arrived hok
  case vacated => exact h.vacated hok
  case kept => exact h.kept hok
  case lost => exact h.lost hok

end DatabaseFile

/-! ## Moves of a database -/

namespace Database

/-- **Moves.** Whatever a database stores, in memory or in a file, a move between keys without
delimiters in their segments does to all values what `Backend.MovePreservesValues` says. It goes
well if there is a value to move and nothing would be too long, as long as a file accepts the
change. -/
theorem move_preserves_values (path : String) {source destination : Key} (hs : source.Plain)
    (hd : destination.Plain) (now later : Time) :
    (∀ d : Database,
      let moved := d.answer (.move source destination) now
      (backend path).MovePreservesValues source destination now later d moved.1 moved.2 ∧
        ∀ bytes, (backend path).fetch source now d = .ok bytes →
          d.refusal? now (.move source destination) = none → moved.1.result = .ok ()) ∧
    ∀ (f : DatabaseFile) (s : Disk × Database),
      let moved := f.answer path (.move source destination) now s
      (f.backend path).MovePreservesValues source destination now later s moved.1 moved.2 ∧
        ∀ bytes, f.Accepts s.1 → (f.backend path).fetch source now s = .ok bytes →
          s.2.refusal? now (.move source destination) = none → moved.1.result = .ok () := by
  constructor
  · intro d moved
    exact ⟨preserves_answer path hs hd now later d, fun bytes => move_eq_ok⟩
  · rintro f ⟨disk, d⟩ moved
    refine ⟨DatabaseFile.preserves_answer f path hs hd now later (disk, d), ?_⟩
    intro bytes haccepts hb hr
    rw [DatabaseFile.fetch_eq] at hb
    rw [(DatabaseFile.answer_eq haccepts path (.move source destination) now d).1]
    exact move_eq_ok hb hr

/-- A database with a value under the root. -/
def rootStored : Database :=
  (backend "store.db").after (fun n => ⟨n⟩) [.save .root (.ofBytes [118])] 0 empty

theorem move_from_root_preserves_values :
    Key.root.Plain ∧ (⟨["a"]⟩ : Key).Plain ∧
      (let moved := rootStored.answer (.move .root ⟨["a"]⟩) ⟨1⟩
       (backend "store.db").MovePreservesValues .root ⟨["a"]⟩ ⟨1⟩ ⟨2⟩ rootStored moved.1 moved.2) ∧
      sampleFile.Accepts sampleDisk ∧
      (let moved := sampleFile.answer "store.db" (.move .root ⟨["a"]⟩) ⟨1⟩ (sampleDisk, rootStored)
       moved.1.result = .ok () ∧
         (sampleFile.backend "store.db").fetch ⟨["a"]⟩ ⟨2⟩ moved.2 = .ok [118]) := by
  have hs : Key.root.Plain := by decide
  have hd : (⟨["a"]⟩ : Key).Plain := by decide
  have haccepts : sampleFile.Accepts sampleDisk := by decide +kernel
  have hstored : (sampleFile.backend "store.db").fetch .root ⟨1⟩ (sampleDisk, rootStored) =
      .ok [118] := by decide +kernel
  obtain ⟨hmemory, hfile⟩ := move_preserves_values "store.db" hs hd ⟨1⟩ ⟨2⟩
  have haccepted : rootStored.refusal? ⟨1⟩ (.move .root ⟨["a"]⟩) = none := by decide +kernel
  obtain ⟨hpreserves, hok⟩ := hfile sampleFile (sampleDisk, rootStored)
  have hmoved := hok [118] haccepts hstored haccepted
  have harrived := hpreserves.arrived hmoved (by decide)
  exact ⟨hs, hd, (hmemory rootStored).1, haccepts, hmoved, harrived.trans hstored⟩

/-- The root and the key of one empty segment are different keys with one text. A move from the one
to the other ends well, and the value is gone. -/
theorem move_loses_value :
    let moved := rootStored.answer (.move .root ⟨[""]⟩) ⟨1⟩
    (backend "store.db").fetch .root ⟨1⟩ rootStored = .ok [118] ∧ moved.1.result = .ok () ∧
      (backend "store.db").fetch ⟨[""]⟩ ⟨2⟩ moved.2 = .error (.notFound ⟨[""]⟩) ∧
      (backend "store.db").fetch .root ⟨2⟩ moved.2 = .error (.notFound .root) := by
  decide +kernel

end Database

end BlobStore
