import BlobStore.Proofs.Decimal
import BlobStore.Proofs.Transaction.Clients

/-!
# Serializability

The clients of one storage hear, and leave behind, what they would if the transactions had been run
one after the other in the order of their grants. The invariant compares two serial runs: of the
whole scripts from the beginning, and of what is left of them from the present state. A request
that is asked out of turn does not change the second, because everybody granted before and not yet
done works on other keys.

## Main definitions

* `Clients.Follows`: the invariant
* `Script.increment`: a number read, increased and saved

## Main results

* `Clients.Follows.act`: every action keeps the invariant
* `serial_increments`: increments in a row add up
* `Clients.serializable`: the run of the clients agrees with the serial run
-/

namespace BlobStore

open Memory (storage)

/-! ## What is left to do -/

namespace Client

/-- The transaction of a client with all that is done in it. -/
def whole (client : Client) : Transaction × Script := (client.transaction, client.script)

/-- The transaction of a client with what is still to be done in it. -/
def left (client : Client) : Transaction × Script := (client.transaction, client.rest)

end Client

variable {clock : Nat → Time} {n : Nat} {s : Memory.State}

/-- Where nothing is left to do nothing happens. -/
theorem serial_stops {scripts : List (Transaction × Script)}
    (h : ∀ g ∈ scripts, ∃ closing, g.2 = .stop closing) :
    serial storage clock scripts n s = (List.replicate scripts.length [], n, s) := by
  induction scripts with
  | nil => rfl
  | cons g rest ih =>
    obtain ⟨tx, p⟩ := g
    obtain ⟨closing, hp⟩ := h (tx, p) List.mem_cons_self
    simp only at hp
    subst hp
    simp [serial, Script.run, ih fun g hg => h g (List.mem_cons_of_mem _ hg),
      List.replicate_succ]

namespace Clients

variable {c : Clients Memory.State}

/-- What is heard and left behind is that of the serial run: what was heard so far, followed by what
the rest of the scripts would hear, is what the whole scripts hear. -/
structure Follows (c : Clients Memory.State) (clock : Nat → Time) (m : Memory) : Prop where
  logs : (serial storage clock (c.grants.map Client.whole) 0 (m, {})).1 =
    List.zipWith (· ++ ·) (c.grants.map Client.log)
      (serial storage clock (c.grants.map Client.left) 0 c.store).1
  contents : (serial storage clock (c.grants.map Client.whole) 0 (m, {})).2.2.1.contents =
    (serial storage clock (c.grants.map Client.left) 0 c.store).2.2.1.contents

theorem follows_start (m : Memory) : Follows ⟨(m, {}), [], []⟩ clock m := ⟨rfl, rfl⟩

/-! ## Grants after a step -/

/-- The clients that were granted, after one client was replaced by another that looks the same. -/
theorem map_grants_set {β : Type} {f : Client → β} {i : Nat} {client after : Client}
    (hc : c.clients[i]? = some client) (hf : f after = f client) (store : Memory.State) :
    (grants ⟨store, c.clients.set i after, c.granted⟩).map f = c.grants.map f := by
  unfold grants
  rw [List.map_filterMap, List.map_filterMap]
  apply List.filterMap_congr
  intro j _
  rw [getElem?_set_of_some hc]
  split
  · rename_i hij
    subst hij
    simp [hc, hf]
  · rfl

/-- A client that was not granted before comes last. -/
theorem Linked.grants_push (h : c.Linked) {i : Nat} {client : Client}
    (hc : c.clients[i]? = some client) (hb : client.hasBegun = false) (after : Client)
    (store : Memory.State) :
    grants ⟨store, c.clients.set i after, c.granted ++ [i]⟩ = c.grants ++ [after] := by
  have hi : i ∉ c.granted := by simp [h.granted_iff, hc, hb]
  have hsame : c.granted.filterMap ((c.clients.set i after)[·]?) = c.grants := by
    apply List.filterMap_congr
    intro j hj
    rw [getElem?_set_of_some hc, if_neg]
    rintro rfl
    exact hi hj
  have hlast : [i].filterMap ((c.clients.set i after)[·]?) = [after] := by
    rw [List.filterMap_cons_some (b := after)]
    · rfl
    · rw [getElem?_set_of_some hc, if_pos rfl]
  exact List.filterMap_append.trans (congrArg₂ (· ++ ·) hsame hlast)

/-- The grants split at a client that was granted; the others are not changed by replacing it. -/
theorem Linked.grants_split (h : c.Linked) {i : Nat} {client : Client}
    (hc : c.clients[i]? = some client) (hb : client.hasBegun = true) (after : Client)
    (store : Memory.State) :
    ∃ before later, c.grants = before ++ client :: later ∧
      grants ⟨store, c.clients.set i after, c.granted⟩ = before ++ after :: later ∧
      ∀ other ∈ before, ∃ j, i ≠ j ∧ c.clients[j]? = some other ∧ other.hasBegun = true := by
  obtain ⟨before, later, hg⟩ := List.append_of_mem ((h.granted_iff i).mpr ⟨client, hc, hb⟩)
  have hn := h.granted_nodup
  rw [hg] at hn
  have hi : i ∉ before ∧ i ∉ later := by
    rw [List.nodup_append, List.nodup_cons] at hn
    exact ⟨fun hm => hn.2.2 i hm i List.mem_cons_self rfl, hn.2.1.1⟩
  have hsame : ∀ js : List Nat, i ∉ js →
      js.filterMap (fun j => if i = j then some after else c.clients[j]?) =
        js.filterMap (c.clients[·]?) := by
    intro js hjs
    apply List.filterMap_congr
    intro j hj
    apply if_neg
    rintro rfl
    exact hjs hj
  refine ⟨before.filterMap (c.clients[·]?), later.filterMap (c.clients[·]?), ?_, ?_, ?_⟩
  · simp [grants, hg, hc]
  · simp [grants, hg, hsame before hi.1, hsame later hi.2, getElem?_set_of_some hc]
  · intro other ho
    obtain ⟨j, hj, hother⟩ := List.mem_filterMap.mp ho
    refine ⟨j, ?_, hother, ?_⟩
    · rintro rfl
      exact hi.1 hj
    · obtain ⟨o, ho', hbo⟩ := (h.granted_iff j).mp (by rw [hg]; simp [hj])
      obtain rfl : o = other := Option.some.inj (ho'.symm.trans hother)
      exact hbo

/-- One who was granted and is not open any more has nothing left to do. -/
theorem Linked.stopped (h : c.Linked) {client : Client} (hm : client ∈ c.clients)
    (hb : client.hasBegun = true) (hn : ¬ client.isActive) :
    ∃ closing, client.rest = .stop closing := by
  have hl := h.linked client hm
  unfold Client.Linked at hl
  cases hs : client.stage with
  | active tx => exact absurd ⟨tx, hs⟩ hn
  | leaving tx =>
    simp only [hs] at hl
    exact hl.2.2
  | ended outcome =>
    simp only [hs] at hl
    exact hl.2
  | waiting | withdrawn | refused cause => simp [Client.hasBegun, hs] at hb

/-- While a transaction is open, whatever is left to do for the others is on other keys. -/
theorem Linked.avoids (h : c.Linked) {i j : Nat} {client other : Client}
    (hc : c.clients[i]? = some client) (ha : client.isActive) (hij : i ≠ j)
    (ho : c.clients[j]? = some other) (hb : other.hasBegun = true) :
    Avoids client.transaction.scope other.left := by
  by_cases hoa : other.isActive
  · exact Or.inr fun k hk hk' => h.disjoint hc ho hij ha hoa k hk' hk
  · exact Or.inl (h.stopped (List.mem_of_getElem? ho) hb hoa)

/-! ## The invariant -/

variable {m : Memory}

/-- What neither asks nor is a grant changes nothing. -/
theorem Follows.quiet (f : c.Follows clock m) {c' : Clients Memory.State}
    (hlog : c'.grants.map Client.log = c.grants.map Client.log)
    (hwhole : c'.grants.map Client.whole = c.grants.map Client.whole)
    (hleft : c'.grants.map Client.left = c.grants.map Client.left)
    (hstore : c'.store.1 = c.store.1) : c'.Follows clock m := by
  obtain ⟨hheard, hafter⟩ := serial_congr clock clock (c.grants.map Client.left) 0 0
    (congrArg Memory.contents hstore)
  refine ⟨?logs, ?contents⟩
  case logs =>
    rw [hlog, hwhole, hleft, hheard]
    exact f.logs
  case contents =>
    rw [hwhole, hleft, hafter]
    exact f.contents

/-- A grant puts a script at the end of both serial runs. -/
theorem Follows.granted (f : c.Follows clock m) {c' : Clients Memory.State} (after : Client)
    (hlog : c'.grants.map Client.log = c.grants.map Client.log ++ [[]])
    (hwhole : c'.grants.map Client.whole = c.grants.map Client.whole ++ [after.whole])
    (hleft : c'.grants.map Client.left = c.grants.map Client.left ++ [after.whole])
    (hstore : c'.store.1 = c.store.1) : c'.Follows clock m := by
  obtain ⟨hheard, hafter⟩ := serial_congr clock clock (c'.grants.map Client.left) 0 0
    (congrArg Memory.contents hstore)
  obtain ⟨hlast, hend⟩ := serial_congr clock clock [after.whole]
    (serial storage clock (c.grants.map Client.whole) 0 (m, {})).2.1
    (serial storage clock (c.grants.map Client.left) 0 c.store).2.1 f.contents
  have hlength : (c.grants.map Client.log).length =
      (serial storage clock (c.grants.map Client.left) 0 c.store).1.length := by
    simp [serial_length]
  refine ⟨?logs, ?contents⟩
  case logs =>
    rw [hheard, hlog, hwhole, hleft, serial_append, serial_append]
    simp only
    rw [hlast, f.logs, List.zipWith_append hlength]
    simp [serial]
  case contents =>
    rw [hafter, hwhole, hleft, serial_append, serial_append]
    exact hend

/-- A request takes one exchange from what the serial run would hear to what was heard. -/
theorem Follows.asked (h : c.Linked) (f : c.Follows clock m) {i : Nat} {client after : Client}
    (hc : c.clients[i]? = some client) {r : Request} {next : Except StorageError r.Answer → Script}
    {result : Except StorageError r.Answer} {now : Time} {store : Memory.State}
    (ha : client.stage = .active client.transaction) (hr : client.rest = .ask r next)
    (hear : client.transaction.hear storage r now c.store = (result, store))
    (hp : after.pending = client.pending) (hw : after.script = client.script)
    (hrest : after.rest = next result) (hlog : after.log = client.log ++ [⟨r, result⟩]) :
    Follows ⟨store, c.clients.set i after, c.granted⟩ clock m := by
  have hb : client.hasBegun = true := by simp [Client.hasBegun, ha]
  have htx : after.transaction = client.transaction := by simp [Client.transaction, hp]
  -- those granted before work on other keys, so the request could be asked ahead of them
  obtain ⟨before, later, hg, hg', hothers⟩ := h.grants_split hc hb after store
  have havoid : ∀ g ∈ before.map Client.left, Avoids client.transaction.scope g := by
    intro g hm
    obtain ⟨other, ho, rfl⟩ := List.mem_map.mp hm
    obtain ⟨j, hij, hget, hbo⟩ := hothers other ho
    exact h.avoids hc ⟨_, ha⟩ hij hget hbo
  obtain ⟨heard, log, rest, hlength, hlogs, hlogs', hcontents⟩ :=
    serial_advance clock (n := 0) (later.map Client.left) havoid now hear
  have hwhole : (before ++ after :: later).map Client.whole =
      (before ++ client :: later).map Client.whole := by
    simp [Client.whole, htx, hw]
  have hleft : (before ++ client :: later).map Client.left =
      before.map Client.left ++ (client.transaction, .ask r next) :: later.map Client.left := by
    simp [Client.left, hr]
  have hleft' : (before ++ after :: later).map Client.left =
      before.map Client.left ++ (client.transaction, next result) :: later.map Client.left := by
    simp [Client.left, htx, hrest]
  have hlen : (before.map Client.log).length = heard.length := by simp [hlength]
  obtain ⟨flogs, fcontents⟩ := f
  rw [hg, hleft] at flogs fcontents
  refine ⟨?logs, ?contents⟩
  case logs =>
    rw [hg', hwhole, hleft', hlogs', flogs, hlogs]
    simp [List.zipWith_append hlen, hlog]
  case contents =>
    rw [hg', hwhole, hleft', fcontents, hcontents]

/-- Every action keeps the invariant. -/
theorem Follows.act (h : c.Linked) (f : c.Follows clock m) (a : ClientAction) :
    (c.act storage a).Follows clock m := by
  cases a with
  | enter keys script =>
    have hsame : (c.act storage (.enter keys script)).grants = c.grants := by
      apply List.filterMap_congr
      intro j hj
      obtain ⟨client, hc, -⟩ := (h.granted_iff j).mp hj
      obtain ⟨hlt, -⟩ := List.getElem?_eq_some_iff.mp hc
      exact List.getElem?_append_left hlt
    exact f.quiet (by rw [hsame]) (by rw [hsame]) (by rw [hsame]) rfl
  | step i a =>
    unfold Clients.act
    simp only
    split
    · exact f
    · rename_i client hc
      have hm := List.mem_of_getElem? hc
      have spec := (h.linked client hm).step h.sound a
      generalize client.step storage a c.store = p at spec
      obtain ⟨after, store⟩ := p
      simp only at spec ⊢
      have htx : after.transaction = client.transaction := by
        simp [Client.transaction, spec.pending]
      have hwhole : after.whole = client.whole := by simp [Client.whole, htx, spec.script]
      cases spec.effect with
      | quiet hlog hrest hstore hb =>
        simp only [hb, Bool.not_and_self, Bool.false_eq_true, if_false]
        refine f.quiet (map_grants_set hc hlog store) (map_grants_set hc hwhole store)
          (map_grants_set hc ?_ store) hstore
        simp [Client.left, htx, hrest]
      | granted hlog hrest hstore hb hb' =>
        simp only [hb, hb', Bool.not_false, Bool.and_self, if_true]
        have hpush := h.grants_push hc hb after store
        have hleft : after.left = after.whole := by
          simp [Client.left, Client.whole, hrest, spec.script]
        refine f.granted after ?_ ?_ ?_ hstore
        · rw [hpush, List.map_append, List.map_singleton, hlog]
        · rw [hpush, List.map_append, List.map_singleton]
        · rw [hpush, List.map_append, List.map_singleton, hleft]
      | asked r next result now ha hr hear hrest hlog hb =>
        have hb' : client.hasBegun = true := by simp [Client.hasBegun, ha]
        simp only [hb, hb', Bool.not_true, Bool.false_and, Bool.false_eq_true, if_false]
        exact f.asked h hc ha hr hear spec.pending spec.script hrest hlog

/-- Whatever happens to the clients, they follow the serial run. -/
theorem Follows.run (h : c.Linked) (f : c.Follows clock m) (actions : List ClientAction) :
    (c.run storage actions).Follows clock m := by
  induction actions generalizing c with
  | nil => exact f
  | cons a rest ih => exact ih (h.act a) (f.act h a)

/-- What was heard is the beginning of what the serial run hears. -/
theorem Follows.prefixes (f : c.Follows clock m) :
    List.Forall₂ (· <+: ·) (c.grants.map Client.log)
      (serial storage clock (c.grants.map Client.whole) 0 (m, {})).1 := by
  have hlength : (c.grants.map Client.log).length =
      (serial storage clock (c.grants.map Client.left) 0 c.store).1.length := by
    simp [serial_length]
  rw [f.logs]
  generalize (serial storage clock (c.grants.map Client.left) 0 c.store).1 = rests at hlength
  generalize c.grants.map Client.log = logs at hlength
  induction logs generalizing rests with
  | nil => cases rests with
    | nil => exact .nil
    | cons _ _ => cases hlength
  | cons log logs ih => cases rests with
    | nil => cases hlength
    | cons rest rests =>
      exact .cons (List.prefix_append log rest) (ih rests (Nat.succ.inj hlength))

/-- When no transaction is open, all was heard, and the contents are those of the serial run. -/
theorem Follows.complete (h : c.Linked) (f : c.Follows clock m)
    (hn : ∀ client ∈ c.clients, ¬ client.isActive) :
    (serial storage clock (c.grants.map Client.whole) 0 (m, {})).1 = c.grants.map Client.log ∧
      (serial storage clock (c.grants.map Client.whole) 0 (m, {})).2.2.1.contents =
        c.store.1.contents := by
  have hstop : ∀ g ∈ c.grants.map Client.left, ∃ closing, g.2 = .stop closing := by
    intro g hg
    obtain ⟨client, hm, rfl⟩ := List.mem_map.mp hg
    obtain ⟨i, hi, hc⟩ := List.mem_filterMap.mp hm
    obtain ⟨client', hc', hb⟩ := (h.granted_iff i).mp hi
    obtain rfl : client' = client := Option.some.inj (hc'.symm.trans hc)
    have hmem := List.mem_of_getElem? hc
    exact h.stopped hmem hb (hn _ hmem)
  obtain ⟨flogs, fcontents⟩ := f
  rw [serial_stops hstop] at flogs fcontents
  refine ⟨?_, fcontents⟩
  rw [flogs, List.length_map, ← List.length_map (f := Client.log)]
  generalize c.grants.map Client.log = logs
  induction logs with
  | nil => rfl
  | cons log logs ih => simp [List.replicate_succ, ih]

end Clients

/-! ## Counters -/

/-- Ends a transaction by what its last request came to. -/
def Script.conclude {α : Type} : Except StorageError α → Script
  | .ok _ => .stop (.finish .committed)
  | .error _ => .stop (.finish .aborted)

/-- Reads a number, and saves the next. -/
def Script.increment (counter : Key) : Script :=
  .ask (.value counter) fun
    | .error _ => .stop (.finish .aborted)
    | .ok content =>
      match content.readAs (.integer (.unsigned 64)) with
      | .ok (.integer n) =>
        .ask (.save counter (.ofText (toString (n + 1)))) conclude
      | _ => .stop (.finish .aborted)

/-- A memory in which a number is stored as text. -/
def Memory.Counts (m : Memory) (counter : Key) (n : Nat) : Prop :=
  m.contents counter = some (Utf8.encode (toString n))

instance Memory.decidableCounts (m : Memory) (counter : Key) (n : Nat) :
    Decidable (m.Counts counter n) := inferInstanceAs (Decidable (_ = _))

theorem drain_ofText (text : String) : (Content.ofText text).drain = .ok (Utf8.encode text) :=
  Content.drain_ofBytes _

theorem Script.run_conclude {α : Type} (tx : Transaction) (result : Except StorageError α) :
    (conclude result).run storage tx clock n s = ([], n, s) := by
  cases result <;> rfl

/-- An increment increases the number by one. -/
theorem Script.run_increment (clock : Nat → Time) (n : Nat) {tx : Transaction} {counter : Key}
    (hk : counter ∈ tx.scope) {a : Nat} (hs : s.1.Counts counter a) (ha : a < 2 ^ 64) :
    ((increment counter).run storage tx clock n s).2.2.1.Counts counter (a + 1) := by
  have hin : tx.contains counter = true := decide_eq_true hk
  obtain ⟨v, hv, hbytes⟩ := Option.map_eq_some_iff.mp hs
  have hread : (Content.ofBytes v.bytes).readAs (.integer (.unsigned 64)) = .ok (.integer a) := by
    have hrange : (a : Int) ≤ (Text.IntegerRange.unsigned 64).greatest := by
      have hpow : Nat.pow 2 64 = 2 ^ 64 := rfl
      simp only [Text.IntegerRange.unsigned, hpow]
      omega
    rw [hbytes]
    exact Content.readAs_ofText_toString hrange
  have hvalue : ∀ now, tx.hear storage (.value counter) now s =
      (.ok (Content.ofBytes v.bytes),
        ⟨⟨s.1.values.put counter { v with accessed := now }⟩, s.2⟩) := by
    intro now
    simp [Transaction.hear, Transaction.answer_storage, Transaction.outside?, hin, Memory.answer,
      hv, Reply.ok, Except.map, Request.timeless]
  simp only [increment, run, hvalue, hread]
  have hsave : tx.outside? (.save counter (.ofText (toString ((a : Int) + 1)))) = none := by
    simp [Transaction.outside?, hin]
  unfold Memory.Counts
  rw [run_conclude, Transaction.hear_contents hsave]
  simp only [Request.effect, drain_ofText, Function.update_self]
  rfl

/-- Increments in a row add up, whatever is done to other keys between them. -/
theorem serial_increments (clock : Nat → Time) (n : Nat) {counter : Key}
    {scripts : List (Transaction × Script)}
    (hp : ∀ g ∈ scripts, counter ∈ g.1.scope → g.2 = .increment counter) {a : Nat}
    (hs : s.1.Counts counter a)
    (ha : a + scripts.countP (fun g => decide (counter ∈ g.1.keys)) < 2 ^ 64) :
    (serial storage clock scripts n s).2.2.1.Counts counter
      (a + scripts.countP (fun g => decide (counter ∈ g.1.keys))) := by
  induction scripts generalizing n s a with
  | nil => exact hs
  | cons g rest ih =>
    obtain ⟨tx, p⟩ := g
    have hrest := fun g hg => hp g (List.mem_cons_of_mem _ hg)
    by_cases hk : counter ∈ tx.keys
    · obtain rfl : p = .increment counter := hp (tx, p) List.mem_cons_self hk
      rw [List.countP_cons_of_pos (by simp [hk])] at ha ⊢
      have hone := Script.run_increment clock n hk hs (by omega)
      have := ih ((Script.increment counter).run storage tx clock n s).2.1 hrest hone (by omega)
      rw [Nat.add_comm _ 1, ← Nat.add_assoc]
      exact this
    · rw [List.countP_cons_of_neg (by simp [hk])] at ha ⊢
      refine ih _ hrest ?_ ha
      exact (Script.run_frame p hk).trans hs

/-! ## Serializability -/

/-- **Serializability.** Clients share a memory and do what they do in any order. Everything that
they have heard is the beginning of what they hear when their whole scripts are run one after the
other, in the order in which their transactions were granted, at any times. No transaction is
refused and every end succeeds. When no transaction is open any more, they have heard all of it,
the contents are those of the serial run, and no update is lost: where all who touch a number
increase it, it has grown by their number. -/
theorem Clients.serializable (m : Memory) (clock : Nat → Time) (actions : List ClientAction) :
    let c := run storage ⟨(m, {}), [], []⟩ actions
    let alone := serial storage clock (c.grants.map Client.whole) 0 (m, {})
    List.Forall₂ (· <+: ·) (c.grants.map Client.log) alone.1 ∧
    (∀ client ∈ c.clients, (∀ cause, client.stage ≠ .refused cause) ∧
      ∀ outcome, client.stage = .ended outcome → outcome = .ok ()) ∧
    ((∀ client ∈ c.clients, ¬ client.isActive) →
      c.grants.map Client.log = alone.1 ∧
      c.store.1.contents = alone.2.2.1.contents ∧
      ∀ counter a, m.Counts counter a →
        (∀ client ∈ c.grants, counter ∈ client.pending.keys →
          client.script = .increment counter) →
        a + c.grants.countP (fun client => decide (counter ∈ client.pending.keys)) < 2 ^ 64 →
        c.store.1.Counts counter
          (a + c.grants.countP (fun client => decide (counter ∈ client.pending.keys)))) := by
  intro c alone
  have h : c.Linked := (linked_start m).run actions
  have f : c.Follows clock m := (follows_start m).run (linked_start m) actions
  refine ⟨f.prefixes, fun client hm => h.outcome hm, ?_⟩
  intro hn
  obtain ⟨hlogs, hcontents⟩ := f.complete h hn
  refine ⟨hlogs.symm, hcontents.symm, ?_⟩
  intro counter a hm hp ha
  have hcount : (c.grants.map Client.whole).countP (fun g => decide (counter ∈ g.1.keys)) =
      c.grants.countP (fun client => decide (counter ∈ client.pending.keys)) := List.countP_map
  have hscripts : ∀ g ∈ c.grants.map Client.whole, counter ∈ g.1.scope →
      g.2 = .increment counter := by
    intro g hg hk
    obtain ⟨client, hmem, rfl⟩ := List.mem_map.mp hg
    exact hp client hmem hk
  have hsum := serial_increments clock 0 (s := (m, {})) hscripts hm (by rw [hcount]; exact ha)
  rw [hcount] at hsum
  exact (congrFun hcontents counter).symm.trans hsum

namespace Clients

/-- A memory in which a number is stored. -/
def sampleMemory : Memory :=
  ⟨OrderedMap.empty.put ⟨["n"]⟩ ⟨Utf8.encode "5", ⟨0⟩, ⟨0⟩, ⟨0⟩⟩⟩

/-- Two clients that increase the number; the second asks for its turn while the first is at
work. -/
def sampleRun : List ClientAction :=
  [.enter [⟨["n"]⟩] (.increment ⟨["n"]⟩), .enter [⟨["n"]⟩] (.increment ⟨["n"]⟩),
    .step 0 .poll, .step 1 .poll, .step 0 (.ask ⟨1⟩), .step 1 .poll, .step 0 (.ask ⟨2⟩),
    .step 0 .close, .step 1 .poll, .step 1 (.ask ⟨3⟩), .step 1 (.ask ⟨4⟩), .step 1 .close]

theorem serializable_on_sampleRun :
    (∀ client ∈ (run storage ⟨(sampleMemory, {}), [], []⟩ sampleRun).clients,
        ¬ client.isActive) ∧
      sampleMemory.Counts ⟨["n"]⟩ 5 ∧
      (run storage ⟨(sampleMemory, {}), [], []⟩ sampleRun).store.1.Counts ⟨["n"]⟩ 7 := by
  have hended : ∀ client ∈ (run storage ⟨(sampleMemory, {}), [], []⟩ sampleRun).clients,
      ¬ client.isActive := by decide +kernel
  have hstart : sampleMemory.Counts ⟨["n"]⟩ 5 := by decide +kernel
  have hcount : (run storage ⟨(sampleMemory, {}), [], []⟩ sampleRun).grants.countP
      (fun client => decide (⟨["n"]⟩ ∈ client.pending.keys)) = 2 := by decide +kernel
  have hscripts : (run storage ⟨(sampleMemory, {}), [], []⟩ sampleRun).grants.map Client.script =
      [.increment ⟨["n"]⟩, .increment ⟨["n"]⟩] := rfl
  obtain ⟨-, -, hsum⟩ := (serializable sampleMemory (fun n => ⟨n⟩) sampleRun).2.2 hended
  have hseven := hsum ⟨["n"]⟩ 5 hstart ?_ ?_
  · rw [hcount] at hseven
    exact ⟨hended, hstart, hseven⟩
  · intro client hm _
    have hscript := List.mem_map_of_mem (f := Client.script) hm
    rw [hscripts] at hscript
    simpa using hscript
  · rw [hcount]
    decide

end Clients

end BlobStore
