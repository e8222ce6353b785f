import TwoPhaseStore.Command.Decoding
import TwoPhaseStore.Proofs.Json.Values
import TwoPhaseStore.Proofs.Results

/-!
Commands are read back as they are written.  A condition that is written as a null is the one thing
that is lost, since a null expects nothing (`legible`):

    decode c.encode = .ok c.legible                                              (decode_encode)

No text is read as a command with such a condition, so what was read once is read back for good:

    decode text = .ok c → decode c.encode = .ok c                            (decode_encode_decoded)
-/

namespace TwoPhaseStore

open Text Json

/-- Payloads that are written without doubles and without deep nesting, and that are written as a
null only if they were read from one. -/
class PlainPayload (V : Type) [Payload V] : Prop extends LawfulPayload V where
  fits (v : V) : (Payload.toJson v).Fits 1
  eq_null (j : Json) (v : V) (h : Payload.ofJson j = .ok v) (hv : Payload.toJson v = .null) :
    j = .null

namespace Payload

theorem fits_int64ToJson (d : Nat) (n : Int64) : (int64ToJson n).Fits d := by
  have hl : -(Nat.pow 2 63 : Int) ≤ n.toInt := n.minValue_le_toInt
  have hu : n.toInt < Nat.pow 2 63 := n.toInt_lt
  refine .int ⟨hl, Int.lt_trans hu ?_⟩
  decide

instance : PlainPayload Int64 where
  fits := fits_int64ToJson 1
  eq_null _ _ _ hv := by cases hv

instance : PlainPayload String where
  fits s := .str s
  eq_null _ _ _ hv := by cases hv

instance : PlainPayload (List Int64) where
  fits ns := .arr fun v hv => by
    obtain ⟨n, -, rfl⟩ := List.mem_map.1 hv
    exact fits_int64ToJson 0 n
  eq_null _ _ _ hv := by cases hv

instance : PlainPayload (Option Int64) where
  fits
    | none => .null
    | some n => fits_int64ToJson 1 n
  eq_null j v h hv := by
    cases v with
    | some n => cases hv
    | none =>
      cases j with
      | null => rfl
      | int n =>
        obtain ⟨m, -, hm⟩ := map_eq_ok (x := int64OfJson (.int n)) h
        cases hm
      | _ => cases h

end Payload

/-! ## Methods -/

namespace Method

theorem ofJson_toJson (m : Method) : ofJson m.toJson = .ok m := by cases m <;> rfl

theorem name_render (m : Method) (rest : List Char) :
    name.run (m.toJson.render ++ rest) = .ok (m, rest) := by
  have hs : (scalarFor .methodName).run (m.toJson.render ++ rest) = .ok (m.toJson, rest) := by
    have hs := scalar_string m.text rest
    show (scalarFor .methodName).run ('"' :: _) = _
    rw [scalarFor, afterBlank_run _ rfl]
    exact hs
  obtain ⟨_, ht⟩ := Reader.eq_of_run hs
  rw [Reader.run, name]
  simp only [ht, bind, Except.bind, ofJson_toJson]
  rfl

end Method

namespace Command

variable {V : Type} [Payload V]

/-! ## Written commands -/

/-- The condition as it is read back: one that is written as a null is none. -/
def heldCondition (e : V) : Option V :=
  match Payload.toJson e with
  | .null => none
  | _ => some e

/-- The command as it is read back. -/
def legible : Command V → Command V
  | .set k v e => .set k v (e.bind heldCondition)
  | c => c

/-- The members of a command beside its method. -/
def others (c : Command V) : List (String × Json) :=
  ("key", .str c.key) :: (payloadMember "value" c.value? ++ payloadMember "cond" c.expected?)

theorem toJson_eq (c : Command V) : c.toJson = .obj (("method", c.method.toJson) :: c.others) := rfl

theorem mem_others {c : Command V} {m : String × Json} (h : m ∈ c.others) :
    m = ("key", .str c.key) ∨
      ∃ v : V, m = ("value", Payload.toJson v) ∨ m = ("cond", Payload.toJson v) := by
  have hp : ∀ (name : String) (p : Option V), m ∈ payloadMember name p →
      ∃ v : V, m = (name, Payload.toJson v) := by
    intro name p hm
    cases p with
    | none => cases hm
    | some v => exact ⟨v, List.mem_singleton.1 hm⟩
  rcases List.mem_cons.1 h with rfl | h
  · exact .inl rfl
  · rcases List.mem_append.1 h with h | h
    · obtain ⟨v, hv⟩ := hp _ _ h
      exact .inr ⟨v, .inl hv⟩
    · obtain ⟨v, hv⟩ := hp _ _ h
      exact .inr ⟨v, .inr hv⟩

/-- The method is named once. -/
theorem ne_method_of_mem_others {c : Command V} {m : String × Json} (h : m ∈ c.others) :
    m.1 ≠ "method" := by
  rcases mem_others h with rfl | ⟨v, rfl | rfl⟩
  · show "key" ≠ "method"
    decide
  · show "value" ≠ "method"
    decide
  · show "cond" ≠ "method"
    decide

theorem heldCondition_of_null {e : V} (h : Payload.toJson e = .null) : heldCondition e = none := by
  rw [heldCondition, h]

theorem heldCondition_of_ne_null {e : V} (h : Payload.toJson e ≠ .null) :
    heldCondition e = some e := by
  unfold heldCondition
  split
  · next hn => exact absurd hn h
  · rfl

theorem conditionOfJson_of_ne_null {j : Json} (h : j ≠ .null) :
    conditionOfJson j = (Payload.ofJson j).map (some : V → Option V) := by
  unfold conditionOfJson Payload.nullable
  split
  · exact absurd rfl h
  · rfl

theorem conditionOfJson_toJson [LawfulPayload V] (e : V) :
    conditionOfJson (Payload.toJson e) = .ok (heldCondition e) := by
  by_cases hn : Payload.toJson e = .null
  · rw [heldCondition_of_null hn, hn]
    rfl
  · rw [heldCondition_of_ne_null hn, conditionOfJson_of_ne_null hn,
      LawfulPayload.ofJson_toJson e]
    rfl

/-- The fields of a written command are those that it has. -/
theorem ofFields_others [LawfulPayload V] (c : Command V) :
    ofFields c.method c.others = .ok c.legible := by
  cases c with
  | get k => rfl
  | del k => rfl
  | set k v e =>
    have hv : Payload.ofJson (Payload.toJson v) = .ok v := LawfulPayload.ofJson_toJson v
    cases e with
    | none =>
      simp [ofFields, others, method, value?, expected?, payloadMember, Fields.add,
        Payload.stringOfJson, hv, Except.map, bind, Except.bind, pure, Except.pure,
        Fields.command, legible, key]
    | some e =>
      simp [ofFields, others, method, value?, expected?, payloadMember, Fields.add,
        Payload.stringOfJson, hv, conditionOfJson_toJson, Except.map, bind, Except.bind, pure,
        Except.pure, Fields.command, legible, key]

/-! ## Reading what was written -/

section
variable {inner : Reader DecodeError Json}

theorem memberReader_method (m : Method) (known : Members) (hk : known.method = none)
    (rest : List Char) :
    (memberReader inner known "method").run (':' :: (m.toJson.render ++ rest)) =
      .ok ({ known with method := some m }, rest) := by
  obtain ⟨_, hc⟩ := Reader.eq_of_run (expect_run ':' rfl (m.toJson.render ++ rest))
  obtain ⟨_, hm⟩ := Reader.eq_of_run (m.name_render rest)
  rw [Reader.run, memberReader, if_pos rfl, hk]
  simp only [hc, hm, bind, Except.bind]
  rfl

theorem memberReader_other {name : String} (hn : name ≠ "method") {v : Json} (h : Reads inner v)
    (known : Members) {rest : List Char} (hr : Delimited rest) :
    (memberReader inner known name).run (':' :: (v.render ++ rest)) =
      .ok ({ known with others := (name, v) :: known.others }, rest) := by
  obtain ⟨_, ht⟩ := Reader.eq_of_run (keepMember_render h known.others name hr)
  rw [Reader.run, memberReader, if_neg hn, ht]
  rfl

theorem others_takesUp {ms : List (String × Json)}
    (h : ∀ m ∈ ms, m.1 ≠ "method" ∧ Reads inner m.2) (known : Members) :
    TakesUp (memberReader inner) known ms { known with others := ms.reverse ++ known.others } := by
  induction ms generalizing known with
  | nil => exact .nil known
  | cons m ms ih =>
    obtain ⟨hn, hv⟩ := h m List.mem_cons_self
    have hs := ih (fun m hm => h m (List.mem_cons_of_mem _ hm))
      { known with others := m :: known.others }
    rw [List.reverse_cons, List.append_assoc]
    exact .cons (fun rest hr => memberReader_other hn hv known hr) hs

/-- A command whose parts are read back is read back itself. -/
theorem reader_render [LawfulPayload V] (c : Command V) (h : ∀ m ∈ c.others, Reads inner m.2)
    (rest : List Char) : (reader inner).run (c.toJson.render ++ rest) = .ok (c.legible, rest) := by
  have htakes : TakesUp (memberReader inner) ⟨none, []⟩ (("method", c.method.toJson) :: c.others)
      ⟨some c.method, c.others.reverse ++ []⟩ :=
    .cons (fun rest _ => memberReader_method c.method _ rfl rest)
      (others_takesUp (fun m hm => ⟨ne_method_of_mem_others hm, h m hm⟩) ⟨some c.method, []⟩)
  obtain ⟨cs, hcs, hrun⟩ := objectRest_render htakes rest
  obtain ⟨_, ht⟩ := Reader.eq_of_run hrun
  have hobject : (objectReader inner).run cs = .ok (c.legible, rest) := by
    rw [Reader.run, objectReader]
    simp only [ht, bind, Except.bind, List.append_nil, List.reverse_reverse, ofFields_others,
      mapError_ok]
    rfl
  obtain ⟨_, ho⟩ := Reader.eq_of_run hobject
  rw [toJson_eq, hcs, reader, afterBlank_run _ rfl, Reader.run]
  dsimp only
  rw [if_pos rfl, ho]
  rfl

end

theorem fits_others [PlainPayload V] (c : Command V) : ∀ m ∈ c.others, m.2.Fits 1 := by
  intro m hm
  rcases mem_others hm with rfl | ⟨v, rfl | rfl⟩
  · exact .str c.key
  · exact PlainPayload.fits v
  · exact PlainPayload.fits v

theorem decode_encode [PlainPayload V] (c : Command V) : decode c.encode = .ok c.legible := by
  have hd : 1 ≤ maxDepth - 1 := by decide
  have hr := reader_render c (fun m hm => ((c.fits_others m hm).mono hd).reads) []
  rw [List.append_nil] at hr
  exact whole_ofList hr

/-! ## Commands that were read -/

/-- The condition is not one that is written as a null. -/
def Legible (c : Command V) : Prop :=
  ∀ e, c.expected? = some e → Payload.toJson e ≠ .null

theorem legible_of_legible {c : Command V} (h : c.Legible) : c.legible = c := by
  cases c with
  | get k => rfl
  | del k => rfl
  | set k v e =>
    cases e with
    | none => rfl
    | some e =>
      show Command.set k v (heldCondition e) = _
      rw [heldCondition_of_ne_null (h e rfl)]

theorem conditionOfJson_ok [PlainPayload V] {j : Json} {e : V}
    (h : conditionOfJson j = .ok (some e)) : Payload.toJson e ≠ .null := by
  by_cases hj : j = .null
  · rw [hj] at h
    cases h
  · rw [conditionOfJson_of_ne_null hj] at h
    obtain ⟨v, hv, he⟩ := map_eq_ok h
    cases he
    exact fun hn => hj (PlainPayload.eq_null j e hv hn)

/-- No field is a condition that is written as a null. -/
def Fields.Legible (f : Fields V) : Prop :=
  ∀ e, f.condition = some (some e) → Payload.toJson e ≠ .null

theorem Fields.add_legible [PlainPayload V] {m : Method} {f f' : Fields V} {member : String × Json}
    (hf : f.Legible) (h : f.add m member = .ok f') : f'.Legible := by
  unfold Fields.add at h
  split at h
  · split at h
    · cases h
    · obtain ⟨k, -, rfl⟩ := map_eq_ok h
      exact hf
  · split at h
    · split at h
      · cases h
      · obtain ⟨v, -, rfl⟩ := map_eq_ok h
        exact hf
    · split at h
      · split at h
        · cases h
        · obtain ⟨e, he, rfl⟩ := map_eq_ok h
          intro e' he'
          cases he'
          exact conditionOfJson_ok he
      · cases h
        exact hf

theorem Fields.foldlM_legible [PlainPayload V] {m : Method} {ms : List (String × Json)} :
    ∀ {f f' : Fields V}, f.Legible → ms.foldlM (Fields.add m) f = .ok f' → f'.Legible := by
  induction ms with
  | nil =>
    intro f f' hf h
    cases h
    exact hf
  | cons member ms ih =>
    intro f f' hf h
    obtain ⟨g, hg, hrest⟩ := bind_eq_ok h
    exact ih (Fields.add_legible hf hg) hrest

theorem Fields.command_legible {m : Method} {f : Fields V} {c : Command V} (hf : f.Legible)
    (h : f.command m = .ok c) : c.Legible := by
  unfold Fields.command at h
  split at h
  · cases h
  · cases h
    exact fun e he => by cases he
  · cases h
    exact fun e he => by cases he
  · split at h
    · cases h
    · cases h
      intro e he
      cases hc : f.condition with
      | none => rw [expected?, hc] at he; cases he
      | some o =>
        rw [expected?, hc] at he
        exact hf e (hc.trans (congrArg some he))

/-- Whatever an object holds, its command is legible. -/
theorem ofFields_legible [PlainPayload V] {m : Method} {ms : List (String × Json)} {c : Command V}
    (h : ofFields m ms = .ok c) : c.Legible := by
  obtain ⟨f, hf, hc⟩ := bind_eq_ok h
  exact Fields.command_legible (Fields.foldlM_legible (fun e he => by cases he) hf) hc

/-- Whatever an array holds, its command is legible. -/
theorem ofItems_legible [PlainPayload V] {m : Method} {vs : List Json} {c : Command V}
    (h : ofItems m vs = .ok c) : c.Legible := by
  cases vs with
  | nil => cases h
  | cons key vs =>
    obtain ⟨k, -, h⟩ := bind_eq_ok h
    cases m with
    | get =>
      obtain ⟨-, -, rfl⟩ := map_eq_ok h
      exact fun e he => by cases he
    | del =>
      obtain ⟨-, -, rfl⟩ := map_eq_ok h
      exact fun e he => by cases he
    | set =>
      cases vs with
      | nil => cases h
      | cons value vs =>
        obtain ⟨v, -, h⟩ := bind_eq_ok h
        obtain ⟨o, ho, h⟩ := bind_eq_ok h
        obtain ⟨-, -, rfl⟩ := map_eq_ok h
        intro e he
        change o = some e at he
        subst he
        exact conditionOfJson_ok ho

theorem objectReader_legible [PlainPayload V] (inner : Reader DecodeError Json) :
    (objectReader inner).Gives (Legible : Command V → Prop) := by
  intro cs t h
  obtain ⟨ms, -, h⟩ := bind_eq_ok h
  split at h
  · cases h
  · obtain ⟨c, hc, h⟩ := bind_eq_ok h
    cases h
    exact ofFields_legible (mapError_eq_ok hc)

theorem arrayReader_legible [PlainPayload V] (inner : Reader DecodeError Json) :
    (arrayReader inner).Gives (Legible : Command V → Prop) := by
  unfold arrayReader afterBlank
  refine Reader.Gives.skipping length_skipBlank_le fun cs t h => ?_
  split at h
  · cases h
  · split at h
    · cases h
    · obtain ⟨m, -, h⟩ := bind_eq_ok h
      obtain ⟨vs, -, h⟩ := bind_eq_ok h
      obtain ⟨c, hc, h⟩ := bind_eq_ok h
      cases h
      exact ofItems_legible (mapError_eq_ok hc)

theorem reader_legible [PlainPayload V] (inner : Reader DecodeError Json) :
    (reader inner).Gives (Legible : Command V → Prop) := by
  unfold reader afterBlank
  refine Reader.Gives.skipping length_skipBlank_le fun cs t h => ?_
  split at h
  · cases h
  · split at h
    · obtain ⟨o, ho, rfl⟩ := map_eq_ok h
      have hc : o.value.Legible := objectReader_legible inner _ o ho
      exact hc
    · split at h
      · obtain ⟨a, ha, rfl⟩ := map_eq_ok h
        have hc : a.value.Legible := arrayReader_legible inner _ a ha
        exact hc
      · obtain ⟨v, -, h⟩ := bind_eq_ok h
        cases h

/-- Whatever the text, a command that is read from it is legible. -/
theorem decode_legible [PlainPayload V] {text : String} {c : Command V}
    (h : decode text = .ok c) : c.Legible := by
  obtain ⟨t, ht, h⟩ := bind_eq_ok h
  split at h
  · cases h
    exact reader_legible _ _ t ht
  · cases h

/-- A command is read back as it was written unless it expects a payload that is written as a
null. -/
theorem decode_encode_iff [PlainPayload V] (c : Command V) :
    decode c.encode = .ok c ↔ c.Legible := by
  constructor
  · exact decode_legible
  · intro h
    rw [decode_encode, legible_of_legible h]

/-- What was read once is read back for good. -/
theorem decode_encode_decoded [PlainPayload V] {text : String} {c : Command V}
    (h : decode text = .ok c) : decode c.encode = .ok c :=
  (decode_encode_iff c).2 (decode_legible h)

theorem legible_optional_iff {c : Command (Option Int64)} :
    c.Legible ↔ ∀ k v, c ≠ .set k v (some none) := by
  constructor
  · rintro h k v rfl
    exact h none rfl rfl
  · intro h e he hn
    cases c with
    | get k => cases he
    | del k => cases he
    | set k v o =>
      cases e with
      | none => exact h k v (congrArg (Command.set k v) he)
      | some n => cases hn

/-- Commands over integers, texts and lists of integers are read back as they were written, and so
are those over optional integers but for a write that expects a null: it is read back without its
condition.  No text is read as such a write, so what was read from a text is read back as it is. -/
theorem round_trip :
    (∀ c : Command Int64, decode c.encode = .ok c) ∧
    (∀ c : Command String, decode c.encode = .ok c) ∧
    (∀ c : Command (List Int64), decode c.encode = .ok c) ∧
    (∀ c : Command (Option Int64),
      decode c.encode = .ok c ↔ ∀ k v, c ≠ .set k v (some none)) ∧
    (∀ (k : Key) (v : Option Int64),
      decode (Command.set k v (some none)).encode = .ok (.set k v none)) ∧
    (∀ (text : String) (k : Key) (v : Option Int64), decode text ≠ .ok (.set k v (some none))) ∧
    ∀ (text : String) (c : Command (Option Int64)), decode text = .ok c →
      decode c.encode = .ok c := by
  refine ⟨fun c => (decode_encode_iff c).2 ?_, fun c => (decode_encode_iff c).2 ?_,
    fun c => (decode_encode_iff c).2 ?_, fun c => ?_, fun k v => ?_, fun text k v h => ?_,
    fun text c h => decode_encode_decoded h⟩
  · rintro e - hn
    cases hn
  · rintro e - hn
    cases hn
  · rintro e - hn
    cases hn
  · rw [decode_encode_iff, legible_optional_iff]
  · exact decode_encode (.set k v (some none))
  · exact decode_legible h none rfl rfl

/-- The text of a write that expects a null is the text of one that is read back. -/
theorem round_trip_null :
    decode (Command.set "k" (none : Option Int64) (some none)).encode =
        .ok (.set "k" (none : Option Int64) none) ∧
      decode (Command.set "k" (none : Option Int64) none).encode =
        .ok (.set "k" (none : Option Int64) none) :=
  have h := round_trip.2.2.2.2.1 "k" none
  ⟨h, round_trip.2.2.2.2.2.2 _ _ h⟩

end Command

end TwoPhaseStore
