import TwoPhaseStore.Proofs.Json.Members
import TwoPhaseStore.Proofs.RoundTrip

/-!
The shape of a command.  A text is read as a command exactly if it reads as a value that denotes
one, so nothing counts but the values under the names of its fields, in whatever order these come
and whatever else stands between them:

    decode text = .ok c ↔ ∃ v, Json.read text = .ok v ∧ Denotes v c                  (decode_shape)

Of an object each field is met once at most (`Once`); of an array the fields are its items.
-/

namespace TwoPhaseStore

open Text Json

/-- Payloads that are read from their written form and from nothing else, and that may be left out
if they are written as a null. -/
class ExactPayload (V : Type) [Payload V] : Prop extends LawfulPayload V where
  eq_toJson (j : Json) (v : V) (h : Payload.ofJson j = .ok v) : j = Payload.toJson v
  ofMissing_iff (v : V) : Payload.ofMissing = some v ↔ Payload.toJson v = .null

namespace Payload

theorem int64OfJson_eq {j : Json} {n : Int64} (h : int64OfJson j = .ok n) :
    j = int64ToJson n := by
  cases j with
  | int m =>
    rw [int64OfJson] at h
    split at h
    · next hm =>
      cases h
      rw [int64ToJson, Int64.toInt_ofInt_of_le hm.1 hm.2]
    · cases h
  | _ => cases h

theorem stringOfJson_iff {j : Json} {s : String} : stringOfJson j = .ok s ↔ j = .str s := by
  cases j <;> simp [stringOfJson]

instance : ExactPayload Int64 where
  eq_toJson _ _ h := int64OfJson_eq h
  ofMissing_iff _ := iff_of_false (fun h => by cases h) fun h => by cases h

instance : ExactPayload String where
  eq_toJson _ _ h := stringOfJson_iff.1 h
  ofMissing_iff _ := iff_of_false (fun h => by cases h) fun h => by cases h

instance : ExactPayload (Option Int64) where
  eq_toJson j v h := by
    cases j with
    | null =>
      cases h
      rfl
    | int n =>
      obtain ⟨m, hm, rfl⟩ := map_eq_ok (x := int64OfJson (.int n)) h
      exact int64OfJson_eq hm
    | _ => cases h
  ofMissing_iff v := by
    cases v with
    | none => exact ⟨fun _ => rfl, fun _ => rfl⟩
    | some n => exact iff_of_false (fun h => by cases h) fun h => by cases h

theorem mapM_int64OfJson_eq {vs : List Json} {ns : List Int64}
    (h : vs.mapM int64OfJson = .ok ns) : vs = ns.map int64ToJson := by
  induction vs generalizing ns with
  | nil =>
    cases h
    rfl
  | cons v vs ih =>
    rw [List.mapM_cons] at h
    obtain ⟨n, hn, h⟩ := bind_eq_ok h
    obtain ⟨ns', hns, h⟩ := bind_eq_ok h
    cases h
    rw [List.map_cons, int64OfJson_eq hn, ih hns]

instance : ExactPayload (List Int64) where
  eq_toJson j ns h := by
    cases j with
    | arr vs => exact congrArg Json.arr (mapM_int64OfJson_eq h)
    | _ => cases h
  ofMissing_iff _ := iff_of_false (fun h => by cases h) fun h => by cases h

theorem ofJson_iff {V : Type} [Payload V] [ExactPayload V] {j : Json} {v : V} :
    ofJson j = .ok v ↔ j = toJson v :=
  ⟨ExactPayload.eq_toJson j v, fun h => h ▸ LawfulPayload.ofJson_toJson v⟩

end Payload

/-! ## Methods -/

namespace Method

theorem ofText?_eq_some {s : String} {m : Method} : ofText? s = some m ↔ s = m.text := by
  unfold ofText?
  constructor
  · intro h
    split at h
    · next hs => cases h; exact hs
    split at h
    · next hs => cases h; exact hs
    split at h
    · next hs => cases h; exact hs
    · cases h
  · rintro rfl
    cases m <;> rfl

theorem ofJson_iff {j : Json} {m : Method} : ofJson j = .ok m ↔ j = .str m.text := by
  cases j with
  | str s =>
    show ofName s = .ok m ↔ _
    rw [ofName, Json.str.injEq, ← ofText?_eq_some]
    cases ofText? s <;> simp
  | _ => exact iff_of_false (fun h => by cases h) fun h => by cases h

/-- A reader that refuses arrays and objects reads the same strings. -/
theorem scalarFor_str_iff {w : Wanted} {d : Nat} {cs rest : List Char} {s : String} :
    (scalarFor w).run cs = .ok (.str s, rest) ↔ (value d).run cs = .ok (.str s, rest) := by
  rw [scalarFor, afterBlank_eq]
  cases hs : skipBlank cs with
  | nil =>
    rw [value_nil hs]
    exact iff_of_false (fun h => by cases h) fun h => by cases h
  | cons c r =>
    by_cases ha : c = '['
    · subst ha
      refine ⟨fun h => (by cases h), fun h => ?_⟩
      cases d with
      | zero =>
        rw [value, valueOver, afterBlank_eq, hs] at h
        cases h
      | succ d =>
        obtain ⟨vs, -, he⟩ := (value_bracket_iff hs).1 h
        cases he
    by_cases ho : c = '\x7b'
    · subst ho
      refine ⟨fun h => (by cases h), fun h => ?_⟩
      cases d with
      | zero =>
        rw [value, valueOver, afterBlank_eq, hs] at h
        cases h
      | succ d =>
        obtain ⟨ms, -, he⟩ := (value_brace_iff hs).1 h
        cases he
    · rw [value_flat hs ha ho, Reader.run]
      dsimp only
      rw [if_neg ha, if_neg ho]
      rfl

/-- A method is read where its name would be read as a value. -/
theorem name_iff {d : Nat} {cs rest : List Char} {m : Method} :
    name.run cs = .ok (m, rest) ↔ (value d).run cs = .ok (.str m.text, rest) := by
  have hname : name.run cs = .ok (m, rest) ↔
      ∃ v, (scalarFor .methodName).run cs = .ok (v, rest) ∧ ofJson v = .ok m := by
    constructor
    · intro h
      obtain ⟨t, ht, rfl, rfl⟩ := Reader.run_eq_ok.1 h
      obtain ⟨u, hu, ht⟩ := bind_eq_ok ht
      obtain ⟨m', hm, ht⟩ := bind_eq_ok ht
      cases ht
      exact ⟨u.value, Reader.run_eq_ok.2 ⟨u, hu, rfl, rfl⟩, mapError_eq_ok hm⟩
    · rintro ⟨v, hv, hm⟩
      obtain ⟨_, hv⟩ := Reader.eq_of_run hv
      rw [Reader.run, name]
      simp only [hv, hm, bind, Except.bind, mapError_ok]
      rfl
  rw [hname, ← scalarFor_str_iff]
  constructor
  · rintro ⟨v, hv, hm⟩
    rwa [ofJson_iff.1 hm] at hv
  · exact fun h => ⟨_, h, ofJson_iff.2 rfl⟩

end Method

namespace Command

/-! ## Shapes -/

/-- The values of the members of a name. -/
def valuesOf (name : String) (ms : List (String × Json)) : List Json :=
  (ms.filter (·.1 = name)).map (·.2)

section
variable {V : Type} [Payload V]

/-- A payload is given once, or it is left out and would be written as a null. -/
inductive ValueOf : List Json → V → Prop where
  | given (v : V) : ValueOf [Payload.toJson v] v
  | missing {v : V} (h : Payload.toJson v = .null) : ValueOf [] v

/-- An expected payload is given once at most; a null expects nothing. -/
inductive ConditionOf : List Json → Option V → Prop where
  | missing : ConditionOf [] none
  | null : ConditionOf [.null] none
  | given {e : V} (h : Payload.toJson e ≠ .null) : ConditionOf [Payload.toJson e] (some e)

theorem ValueOf.length_le {js : List Json} {v : V} (h : ValueOf js v) : js.length ≤ 1 := by
  cases h <;> simp

theorem ConditionOf.length_le {js : List Json} {e : Option V} (h : ConditionOf js e) :
    js.length ≤ 1 := by
  cases h <;> simp

/-- The value denotes the command: as an object with its fields, or as an array of them. -/
inductive Denotes : Json → Command V → Prop where
  | get {ms : List (String × Json)} {k : Key} (hm : valuesOf "method" ms = [.str "GET"])
    (hk : valuesOf "key" ms = [.str k]) : Denotes (.obj ms) (.get k)
  | del {ms : List (String × Json)} {k : Key} (hm : valuesOf "method" ms = [.str "DEL"])
    (hk : valuesOf "key" ms = [.str k]) : Denotes (.obj ms) (.del k)
  | set {ms : List (String × Json)} {k : Key} {v : V} {e : Option V}
    (hm : valuesOf "method" ms = [.str "SET"]) (hk : valuesOf "key" ms = [.str k])
    (hv : ValueOf (valuesOf "value" ms) v) (he : ConditionOf (valuesOf "cond" ms) e) :
    Denotes (.obj ms) (.set k v e)
  | getItems (k : Key) : Denotes (.arr [.str "GET", .str k]) (.get k)
  | delItems (k : Key) : Denotes (.arr [.str "DEL", .str k]) (.del k)
  | setItems (k : Key) (v : V) :
    Denotes (.arr [.str "SET", .str k, Payload.toJson v]) (.set k v none)
  | setCondItems (k : Key) (v : V) {j : Json} {e : Option V} (he : ConditionOf [j] e) :
    Denotes (.arr [.str "SET", .str k, Payload.toJson v, j]) (.set k v e)

end

/-! ## Fields that are met once -/

/-- What was met before, and then these values of which each must be the first: what is known
then. -/
inductive Once {α : Type} (read : Json → Except Mismatch α) :
    Option α → List Json → Option α → Prop where
  | nothing (x : Option α) : Once read x [] x
  | one {j : Json} {a : α} (h : read j = .ok a) : Once read none [j] (some a)

section
variable {α : Type} {read : Json → Except Mismatch α} {x y : Option α} {j : Json} {js : List Json}

theorem once_nil : Once read x [] y ↔ x = y := by
  constructor
  · rintro ⟨⟩
    rfl
  · rintro rfl
    exact .nothing x

theorem once_cons :
    Once read x (j :: js) y ↔ x = none ∧ ∃ a, read j = .ok a ∧ Once read (some a) js y := by
  constructor
  · rintro ⟨⟩
    next a h => exact ⟨rfl, a, h, .nothing _⟩
  · rintro ⟨rfl, a, h, ho⟩
    cases ho with
    | nothing => exact .one h

theorem once_some_iff {a : α} : Once read none js (some a) ↔ ∃ j, js = [j] ∧ read j = .ok a := by
  constructor
  · rintro ⟨⟩
    next j h => exact ⟨j, rfl, h⟩
  · rintro ⟨j, rfl, h⟩
    exact .one h

/-- A field is refused a second time. -/
theorem unlessMet_iff {β : Type} {f : Mismatch} {put : α → β} {b : β} :
    (if x.isSome then .error f else (read j).map put) = .ok b ↔
      x = none ∧ ∃ a, read j = .ok a ∧ put a = b := by
  cases x with
  | some a => exact iff_of_false (fun h => by cases h) fun h => by cases h.1
  | none =>
    constructor
    · exact fun h => ⟨rfl, map_eq_ok h⟩
    · rintro ⟨-, a, h, rfl⟩
      show (read j).map put = _
      rw [h]
      rfl

end

theorem valuesOf_cons (name n : String) (j : Json) (ms : List (String × Json)) :
    valuesOf name ((n, j) :: ms) =
      if n = name then j :: valuesOf name ms else valuesOf name ms := by
  unfold valuesOf
  by_cases h : n = name <;> simp [h]

/-! ## Objects -/

section
variable {V : Type} [Payload V]

/-- The values that count for the value and the condition: only writes have these. -/
def writtenOf (m : Method) (name : String) (ms : List (String × Json)) : List Json :=
  if m = .set then valuesOf name ms else []

theorem writtenOf_nil (m : Method) (name : String) : writtenOf m name [] = [] := by
  unfold writtenOf
  split <;> rfl

theorem writtenOf_cons_of_ne {m : Method} {name n : String} (h : m = .set → n ≠ name) (j : Json)
    (ms : List (String × Json)) : writtenOf m name ((n, j) :: ms) = writtenOf m name ms := by
  unfold writtenOf
  split
  · next hm => rw [valuesOf_cons, if_neg (h hm)]
  · rfl

theorem writtenOf_cons_self (name : String) (j : Json) (ms : List (String × Json)) :
    writtenOf .set name ((name, j) :: ms) = j :: writtenOf .set name ms := by
  rw [writtenOf, if_pos rfl, valuesOf_cons, if_pos rfl]
  rfl

section
variable {f g f' : Fields V} {j : Json} {m : Method}

theorem Fields.add_key : f.add m ("key", j) = .ok g ↔
    f.key = none ∧ ∃ k, Payload.stringOfJson j = .ok k ∧ { f with key := some k } = g :=
  unlessMet_iff

theorem Fields.add_value : f.add .set ("value", j) = .ok g ↔
    f.value = none ∧ ∃ v, Payload.ofJson j = .ok v ∧ { f with value := some v } = g :=
  unlessMet_iff

theorem Fields.add_cond : f.add .set ("cond", j) = .ok g ↔
    f.condition = none ∧ ∃ e, conditionOfJson j = .ok e ∧ { f with condition := some e } = g :=
  unlessMet_iff

/-- Other members are left aside. -/
theorem Fields.add_other {n : String} (hk : n ≠ "key")
    (hw : m = .set → n ≠ "value" ∧ n ≠ "cond") : f.add m (n, j) = .ok f := by
  rw [Fields.add, if_neg hk, if_neg fun h => (hw h.2).1 h.1, if_neg fun h => (hw h.2).2 h.1]

/-- The fields of an object are those that are met, each once. -/
theorem Fields.foldlM_iff {ms : List (String × Json)} :
    ms.foldlM (Fields.add m) f = .ok f' ↔
      Once Payload.stringOfJson f.key (valuesOf "key" ms) f'.key ∧
      Once Payload.ofJson f.value (writtenOf m "value" ms) f'.value ∧
      Once conditionOfJson f.condition (writtenOf m "cond" ms) f'.condition := by
  induction ms generalizing f with
  | nil =>
    rw [writtenOf_nil, writtenOf_nil, valuesOf, once_nil, once_nil, List.filter_nil, List.map_nil,
      once_nil]
    obtain ⟨key, value, condition⟩ := f
    constructor
    · intro h
      cases h
      exact ⟨rfl, rfl, rfl⟩
    · rintro ⟨rfl, rfl, rfl⟩
      rfl
  | cons member ms ih =>
    obtain ⟨n, j⟩ := member
    rw [List.foldlM_cons, bind_eq_ok_iff]
    by_cases hk : n = "key"
    · subst hk
      rw [valuesOf_cons, if_pos rfl, once_cons, writtenOf_cons_of_ne fun _ => by decide,
        writtenOf_cons_of_ne fun _ => by decide]
      constructor
      · rintro ⟨g, hg, h⟩
        obtain ⟨hn, k, hj, rfl⟩ := Fields.add_key.1 hg
        obtain ⟨h₁, h₂⟩ := ih.1 h
        exact ⟨⟨hn, k, hj, h₁⟩, h₂⟩
      · rintro ⟨⟨hn, k, hj, h₁⟩, h₂⟩
        exact ⟨_, Fields.add_key.2 ⟨hn, k, hj, rfl⟩, ih.2 ⟨h₁, h₂⟩⟩
    rw [valuesOf_cons, if_neg hk]
    by_cases hv : m = .set ∧ n = "value"
    · obtain ⟨rfl, rfl⟩ := hv
      rw [writtenOf_cons_self, once_cons, writtenOf_cons_of_ne fun _ => by decide]
      constructor
      · rintro ⟨g, hg, h⟩
        obtain ⟨hn, v, hj, rfl⟩ := Fields.add_value.1 hg
        obtain ⟨h₁, h₂, h₃⟩ := ih.1 h
        exact ⟨h₁, ⟨hn, v, hj, h₂⟩, h₃⟩
      · rintro ⟨h₁, ⟨hn, v, hj, h₂⟩, h₃⟩
        exact ⟨_, Fields.add_value.2 ⟨hn, v, hj, rfl⟩, ih.2 ⟨h₁, h₂, h₃⟩⟩
    by_cases hc : m = .set ∧ n = "cond"
    · obtain ⟨rfl, rfl⟩ := hc
      rw [writtenOf_cons_self, once_cons, writtenOf_cons_of_ne fun _ => by decide]
      constructor
      · rintro ⟨g, hg, h⟩
        obtain ⟨hn, e, hj, rfl⟩ := Fields.add_cond.1 hg
        obtain ⟨h₁, h₂, h₃⟩ := ih.1 h
        exact ⟨h₁, h₂, hn, e, hj, h₃⟩
      · rintro ⟨h₁, h₂, hn, e, hj, h₃⟩
        exact ⟨_, Fields.add_cond.2 ⟨hn, e, hj, rfl⟩, ih.2 ⟨h₁, h₂, h₃⟩⟩
    · rw [Fields.add_other hk fun hm => ⟨fun he => hv ⟨hm, he⟩, fun he => hc ⟨hm, he⟩⟩,
        writtenOf_cons_of_ne fun hm he => hv ⟨hm, he⟩,
        writtenOf_cons_of_ne fun hm he => hc ⟨hm, he⟩, ← ih]
      simp

end

/-- What was met of a value, or what stands for one that is left out. -/
theorem valueOf_iff [ExactPayload V] {js : List Json} {v : V} : ValueOf js v ↔
    ∃ y, Once Payload.ofJson none js y ∧ y.or Payload.ofMissing = some v := by
  constructor
  · rintro (⟨⟩ | ⟨h⟩)
    · exact ⟨some v, .one (LawfulPayload.ofJson_toJson v), rfl⟩
    · exact ⟨none, .nothing none, (ExactPayload.ofMissing_iff v).2 h⟩
  · rintro ⟨y, ho, hv⟩
    cases ho with
    | nothing => exact .missing ((ExactPayload.ofMissing_iff v).1 hv)
    | one h =>
      obtain rfl := Option.some.inj hv
      rw [Payload.ofJson_iff.1 h]
      exact .given _

/-- A condition that is given is a null or another payload. -/
theorem conditionOf_singleton_iff [ExactPayload V] {j : Json} {e : Option V} :
    ConditionOf [j] e ↔ conditionOfJson j = .ok e := by
  constructor
  · rintro (⟨⟩ | ⟨⟩ | ⟨h⟩)
    · rfl
    · rw [conditionOfJson_of_ne_null h, LawfulPayload.ofJson_toJson]
      rfl
  · intro h
    by_cases hj : j = .null
    · subst hj
      cases h
      exact .null
    · rw [conditionOfJson_of_ne_null hj] at h
      obtain ⟨v, hv, rfl⟩ := map_eq_ok h
      obtain rfl := Payload.ofJson_iff.1 hv
      exact .given hj

theorem conditionOf_iff [ExactPayload V] {js : List Json} {e : Option V} : ConditionOf js e ↔
    ∃ y, Once conditionOfJson none js y ∧ y.getD none = e := by
  constructor
  · intro h
    cases h with
    | missing => exact ⟨none, .nothing none, rfl⟩
    | null => exact ⟨some none, .one rfl, rfl⟩
    | given h => exact ⟨some _, .one (conditionOf_singleton_iff.1 (.given h)), rfl⟩
  · rintro ⟨y, ho, rfl⟩
    cases ho with
    | nothing => exact .missing
    | one h => exact conditionOf_singleton_iff.2 h

theorem once_key_iff {js : List Json} {k : Key} :
    Once Payload.stringOfJson none js (some k) ↔ js = [.str k] := by
  simp only [once_some_iff, Payload.stringOfJson_iff, exists_eq_right]

theorem Fields.command_iff {m : Method} {f : Fields V} {c : Command V} :
    f.command m = .ok c ↔ ∃ k, f.key = some k ∧
      (m = .get ∧ c = .get k ∨ m = .del ∧ c = .del k ∨
        m = .set ∧ ∃ v, f.value.or Payload.ofMissing = some v ∧
          c = .set k v (f.condition.getD none)) := by
  obtain ⟨key, value, condition⟩ := f
  unfold Fields.command
  dsimp only
  cases key with
  | none => simp
  | some k =>
    cases m with
    | get => simp [eq_comm]
    | del => simp [eq_comm]
    | set => cases value.or Payload.ofMissing <;> simp [eq_comm]

/-- The command of an object, from its method and its other members. -/
theorem ofFields_iff [ExactPayload V] {m : Method} {ms : List (String × Json)} {c : Command V} :
    ofFields m ms = .ok c ↔ ∃ k, valuesOf "key" ms = [.str k] ∧
      (m = .get ∧ c = .get k ∨ m = .del ∧ c = .del k ∨
        m = .set ∧ ∃ v e, ValueOf (valuesOf "value" ms) v ∧ ConditionOf (valuesOf "cond" ms) e ∧
          c = .set k v e) := by
  rw [ofFields, bind_eq_ok_iff]
  constructor
  · rintro ⟨f, hf, hc⟩
    obtain ⟨hk, hv, he⟩ := Fields.foldlM_iff.1 hf
    obtain ⟨k, hkey, h⟩ := Fields.command_iff.1 hc
    rw [hkey] at hk
    refine ⟨k, once_key_iff.1 hk, h.imp_right (Or.imp_right ?_)⟩
    rintro ⟨rfl, v, hv', rfl⟩
    exact ⟨rfl, v, _, valueOf_iff.2 ⟨_, hv, hv'⟩, conditionOf_iff.2 ⟨_, he, rfl⟩, rfl⟩
  · rintro ⟨k, hk, ⟨rfl, rfl⟩ | ⟨rfl, rfl⟩ | ⟨rfl, v, e, hv, he, rfl⟩⟩
    · exact ⟨⟨some k, none, none⟩,
        Fields.foldlM_iff.2 ⟨once_key_iff.2 hk, .nothing none, .nothing none⟩, rfl⟩
    · exact ⟨⟨some k, none, none⟩,
        Fields.foldlM_iff.2 ⟨once_key_iff.2 hk, .nothing none, .nothing none⟩, rfl⟩
    · obtain ⟨y, hy, hv⟩ := valueOf_iff.1 hv
      obtain ⟨z, hz, rfl⟩ := conditionOf_iff.1 he
      exact ⟨⟨some k, y, z⟩, Fields.foldlM_iff.2 ⟨once_key_iff.2 hk, hy, hz⟩,
        Fields.command_iff.2 ⟨k, rfl, .inr (.inr ⟨rfl, v, hv, rfl⟩)⟩⟩

/-- Takes a member up by its value. -/
def Members.add (known : Members) (member : String × Json) : Option Members :=
  if member.1 = "method" then
    if known.method.isSome then none
    else (Method.ofJson member.2).toOption.map fun m => { known with method := some m }
  else some { known with others := member :: known.others }

theorem Members.add_method {known known' : Members} {j : Json} :
    known.add ("method", j) = some known' ↔
      known.method = none ∧
        ∃ m, Method.ofJson j = .ok m ∧ { known with method := some m } = known' := by
  rw [Members.add, if_pos rfl]
  cases known.method with
  | some m => simp
  | none => cases Method.ofJson j <;> simp [Except.toOption]

/-- A member of a command is taken up by its value. -/
theorem memberReader_follows (d : Nat) :
    Follows (Json.value d) (memberReader (Json.value d)) Members.add := by
  intro known name cs known' rest
  by_cases hn : name = "method"
  · subst hn
    simp only [Members.add_method]
    constructor
    · intro h
      obtain ⟨t, ht, rfl, rfl⟩ := Reader.run_eq_ok.1 h
      rw [memberReader, if_pos rfl] at ht
      split at ht
      · cases ht
      · next hk =>
        obtain ⟨colon, hc, ht⟩ := bind_eq_ok ht
        obtain ⟨m, hm, ht⟩ := bind_eq_ok ht
        cases ht
        have hv : (Json.value d).run colon.rest = .ok (.str m.value.text, m.rest) :=
          Method.name_iff.1 (Reader.run_eq_ok.2 ⟨m, hm, rfl, rfl⟩)
        exact ⟨_, ⟨_, Reader.run_eq_ok.2 ⟨colon, hc, rfl, rfl⟩, hv⟩, hk, m.value,
          Method.ofJson_iff.2 rfl, rfl⟩
    · rintro ⟨v, ⟨r, hc, hv⟩, hk, m, hm, rfl⟩
      rw [Method.ofJson_iff.1 hm] at hv
      obtain ⟨_, hc⟩ := Reader.eq_of_run hc
      obtain ⟨_, hm⟩ := Reader.eq_of_run (Method.name_iff.2 hv)
      rw [Reader.run, memberReader, if_pos rfl, hk]
      simp only [hc, hm, bind, Except.bind]
      rfl
  · have hadd : ∀ v,
        known.add (name, v) = some { known with others := (name, v) :: known.others } :=
      fun v => if_neg hn
    simp only [hadd, Option.some.injEq]
    constructor
    · intro h
      obtain ⟨t, ht, rfl, rfl⟩ := Reader.run_eq_ok.1 h
      rw [memberReader, if_neg hn] at ht
      obtain ⟨u, hu, rfl⟩ := map_eq_ok ht
      obtain ⟨v, hv, hk⟩ :=
        (keepMember_follows _ _ _ _ _ _).1 (Reader.run_eq_ok.2 ⟨u, hu, rfl, rfl⟩)
      exact ⟨v, hv, by rw [Option.some.inj hk]; rfl⟩
    · rintro ⟨v, hv, rfl⟩
      obtain ⟨_, ht⟩ := Reader.eq_of_run
        ((keepMember_follows _ known.others name _ _ _).2 ⟨v, hv, rfl⟩)
      rw [Reader.run, memberReader, if_neg hn, ht]
      rfl

/-- The members of a command are its method, met once, and the other ones. -/
theorem Members.foldlM_iff {ms : List (String × Json)} {known known' : Members} :
    ms.foldlM Members.add known = some known' ↔
      Once Method.ofJson known.method (valuesOf "method" ms) known'.method ∧
        known'.others = (ms.filter (·.1 ≠ "method")).reverse ++ known.others := by
  induction ms generalizing known with
  | nil =>
    obtain ⟨method, others⟩ := known
    rw [valuesOf, List.filter_nil, List.map_nil, once_nil]
    constructor
    · intro h
      cases h
      exact ⟨rfl, rfl⟩
    · obtain ⟨method', others'⟩ := known'
      rintro ⟨rfl, ho⟩
      obtain rfl : others' = others := ho
      rfl
  | cons member ms ih =>
    obtain ⟨n, j⟩ := member
    rw [List.foldlM_cons, Option.bind_eq_bind, Option.bind_eq_some_iff, valuesOf_cons]
    by_cases hn : n = "method"
    · subst hn
      rw [if_pos rfl, once_cons, List.filter_cons_of_neg (by simp)]
      constructor
      · rintro ⟨g, hg, h⟩
        obtain ⟨hk, m, hm, rfl⟩ := Members.add_method.1 hg
        obtain ⟨h₁, h₂⟩ := ih.1 h
        exact ⟨⟨hk, m, hm, h₁⟩, h₂⟩
      · rintro ⟨⟨hk, m, hm, h₁⟩, h₂⟩
        exact ⟨_, Members.add_method.2 ⟨hk, m, hm, rfl⟩, ih.2 ⟨h₁, h₂⟩⟩
    · have hadd : known.add (n, j) = some { known with others := (n, j) :: known.others } :=
        if_neg hn
      rw [if_neg hn, hadd, List.filter_cons_of_pos (by simpa using hn), List.reverse_cons,
        List.append_assoc]
      constructor
      · rintro ⟨g, hg, h⟩
        obtain rfl := Option.some.inj hg
        exact ih.1 h
      · exact fun h => ⟨_, rfl, ih.2 h⟩

theorem valuesOf_filter_ne {name : String} (h : name ≠ "method") (ms : List (String × Json)) :
    valuesOf name (ms.filter (·.1 ≠ "method")) = valuesOf name ms := by
  unfold valuesOf
  rw [List.filter_filter]
  congr 1
  refine List.filter_congr fun m _ => ?_
  by_cases hm : m.1 = name
  · simp [hm, h]
  · simp [hm]

/-- The value of an object denotes the command of its method and its other members. -/
theorem denotes_obj_iff [ExactPayload V] {ms : List (String × Json)} {c : Command V} :
    Denotes (.obj ms) c ↔ ∃ m, valuesOf "method" ms = [.str m.text] ∧
      ofFields m (ms.filter (·.1 ≠ "method")) = .ok c := by
  simp only [ofFields_iff, valuesOf_filter_ne (show "key" ≠ "method" by decide),
    valuesOf_filter_ne (show "value" ≠ "method" by decide),
    valuesOf_filter_ne (show "cond" ≠ "method" by decide)]
  constructor
  · intro h
    cases h with
    | get hm hk => exact ⟨.get, hm, _, hk, .inl ⟨rfl, rfl⟩⟩
    | del hm hk => exact ⟨.del, hm, _, hk, .inr (.inl ⟨rfl, rfl⟩)⟩
    | set hm hk hv he => exact ⟨.set, hm, _, hk, .inr (.inr ⟨rfl, _, _, hv, he, rfl⟩)⟩
  · rintro ⟨m, hm, k, hk, ⟨rfl, rfl⟩ | ⟨rfl, rfl⟩ | ⟨rfl, v, e, hv, he, rfl⟩⟩
    · exact .get hm hk
    · exact .del hm hk
    · exact .set hm hk hv he

/-- One value or none is the same in every order. -/
theorem valuesOf_perm {name : String} {ms ms' : List (String × Json)} (h : ms.Perm ms')
    (hl : (valuesOf name ms).length ≤ 1) : valuesOf name ms' = valuesOf name ms := by
  have hp : (valuesOf name ms').Perm (valuesOf name ms) := ((h.filter _).map _).symm
  cases hv : valuesOf name ms with
  | nil => exact List.perm_nil.1 (hv ▸ hp)
  | cons j js =>
    obtain rfl : js = [] := List.eq_nil_of_length_eq_zero (by simpa [hv] using hl)
    exact List.perm_singleton.1 (hv ▸ hp)

/-- The order of the members of an object does not matter. -/
theorem Denotes.perm {ms ms' : List (String × Json)} {c : Command V} (h : Denotes (.obj ms) c)
    (hp : ms.Perm ms') : Denotes (.obj ms') c := by
  have hone : ∀ {name : String} {j : Json}, valuesOf name ms = [j] → valuesOf name ms' = [j] :=
    fun hj => (valuesOf_perm hp (by simp [hj])).trans hj
  cases h with
  | get hm hk => exact .get (hone hm) (hone hk)
  | del hm hk => exact .del (hone hm) (hone hk)
  | set hm hk hv he =>
    refine .set (hone hm) (hone hk) ?_ ?_
    · rwa [valuesOf_perm hp hv.length_le]
    · rwa [valuesOf_perm hp he.length_le]

/-! ## Arrays -/

omit [Payload V] in
theorem noFurther_iff {m : Method} {rest : List Json} {c d : Command V} :
    ((noFurther m rest).map fun _ => c) = .ok d ↔ rest = [] ∧ c = d := by
  unfold noFurther
  cases rest with
  | nil => exact ⟨fun h => ⟨rfl, Except.ok.inj h⟩, fun h => congrArg Except.ok h.2⟩
  | cons j rest => exact iff_of_false (fun h => by cases h) fun h => by cases h.1

/-- The value of a write in an array, and its condition if there is one more item. -/
theorem ofItems_set_iff [ExactPayload V] {k : Key} {items : List Json} {c : Command V} :
    ofItems .set (.str k :: items) = .ok c ↔ ∃ v e, c = .set k v e ∧
      (items = [Payload.toJson v] ∧ e = none ∨
        ∃ j, items = [Payload.toJson v, j] ∧ ConditionOf [j] e) := by
  constructor
  · intro h
    cases items with
    | nil => cases h
    | cons value items =>
      have hset : (Payload.ofJson value >>= fun v => conditionOfJson (items.headD .null) >>=
          fun e => (noFurther .set (items.drop 1)).map fun _ => .set k v e) = .ok c := h
      obtain ⟨v, hv, hset⟩ := bind_eq_ok hset
      obtain ⟨e, he, hset⟩ := bind_eq_ok hset
      obtain ⟨hrest, rfl⟩ := noFurther_iff.1 hset
      obtain rfl := Payload.ofJson_iff.1 hv
      refine ⟨v, e, rfl, ?_⟩
      cases items with
      | nil =>
        cases he
        exact .inl ⟨rfl, rfl⟩
      | cons j items =>
        obtain rfl : items = [] := hrest
        exact .inr ⟨j, rfl, conditionOf_singleton_iff.2 he⟩
  · rintro ⟨v, e, rfl, ⟨rfl, rfl⟩ | ⟨j, rfl, he⟩⟩
    · have hv : Payload.ofJson (Payload.toJson v) = .ok v := LawfulPayload.ofJson_toJson v
      show (Payload.ofJson (Payload.toJson v) >>= _) = _
      rw [hv]
      rfl
    · have hv : Payload.ofJson (Payload.toJson v) = .ok v := LawfulPayload.ofJson_toJson v
      show (Payload.ofJson (Payload.toJson v) >>= fun v => conditionOfJson j >>= _) = _
      rw [hv]
      show (conditionOfJson j >>= _) = _
      rw [conditionOf_singleton_iff.1 he]
      rfl

/-- The value of an array denotes the command of its first item and the others. -/
theorem denotes_arr_iff [ExactPayload V] {vs : List Json} {c : Command V} :
    Denotes (.arr vs) c ↔ ∃ m items, vs = .str m.text :: items ∧ ofItems m items = .ok c := by
  constructor
  · intro h
    cases h with
    | getItems k => exact ⟨.get, _, rfl, rfl⟩
    | delItems k => exact ⟨.del, _, rfl, rfl⟩
    | setItems k v => exact ⟨.set, _, rfl, ofItems_set_iff.2 ⟨v, none, rfl, .inl ⟨rfl, rfl⟩⟩⟩
    | setCondItems k v he =>
      exact ⟨.set, _, rfl, ofItems_set_iff.2 ⟨v, _, rfl, .inr ⟨_, rfl, he⟩⟩⟩
  · rintro ⟨m, items, rfl, h⟩
    cases items with
    | nil => cases h
    | cons key items =>
      obtain ⟨k, hk, hrest⟩ := bind_eq_ok h
      obtain rfl := Payload.stringOfJson_iff.1 hk
      cases m with
      | get =>
        obtain ⟨rfl, rfl⟩ := noFurther_iff.1 hrest
        exact .getItems k
      | del =>
        obtain ⟨rfl, rfl⟩ := noFurther_iff.1 hrest
        exact .delItems k
      | set =>
        obtain ⟨v, e, rfl, ⟨rfl, rfl⟩ | ⟨j, rfl, he⟩⟩ := ofItems_set_iff.1 h
        · exact .setItems k v
        · exact .setCondItems k v he

/-! ## Texts -/

theorem objectReader_iff [ExactPayload V] {d : Nat} {cs rest : List Char} {c : Command V} :
    (objectReader (Json.value d)).run cs = .ok (c, rest) ↔
      ∃ ms, ObjectRest (Json.value d) cs ms rest ∧ Denotes (.obj ms) c := by
  simp only [denotes_obj_iff]
  constructor
  · intro h
    obtain ⟨t, ht, rfl, rfl⟩ := Reader.run_eq_ok.1 h
    obtain ⟨u, hu, ht⟩ := bind_eq_ok ht
    split at ht
    · cases ht
    · next m hm =>
      obtain ⟨c', hc, ht⟩ := bind_eq_ok ht
      cases ht
      obtain ⟨ms, hms, hf⟩ := (objectRest_iff (memberReader_follows d)).1
        (Reader.run_eq_ok.2 ⟨u, hu, rfl, rfl⟩)
      obtain ⟨ho, hothers⟩ := Members.foldlM_iff.1 hf
      rw [hm, once_some_iff] at ho
      obtain ⟨j, hj, hname⟩ := ho
      rw [Method.ofJson_iff.1 hname] at hj
      rw [hothers, List.append_nil, List.reverse_reverse] at hc
      exact ⟨ms, hms, m, hj, mapError_eq_ok hc⟩
  · rintro ⟨ms, hms, m, hj, hc⟩
    have hf : ms.foldlM Members.add ⟨none, []⟩ =
        some ⟨some m, (ms.filter (·.1 ≠ "method")).reverse⟩ :=
      Members.foldlM_iff.2 ⟨once_some_iff.2 ⟨_, hj, Method.ofJson_iff.2 rfl⟩,
        (List.append_nil _).symm⟩
    obtain ⟨_, hu⟩ := Reader.eq_of_run ((objectRest_iff (memberReader_follows d)).2 ⟨ms, hms, hf⟩)
    rw [Reader.run, objectReader]
    simp only [hu, bind, Except.bind, List.reverse_reverse, hc, mapError_ok]
    rfl

theorem arrayReader_iff [ExactPayload V] {d : Nat} {cs rest : List Char} {c : Command V} :
    (arrayReader (Json.value d)).run cs = .ok (c, rest) ↔
      ∃ vs, (items (Json.value d)).run cs = .ok (vs, rest) ∧ Denotes (.arr vs) c := by
  simp only [denotes_arr_iff]
  cases hs : skipBlank cs with
  | nil =>
    rw [arrayReader, items, afterBlank_eq, afterBlank_eq, hs]
    refine ⟨fun h => (by cases h), fun h => ?_⟩
    obtain ⟨vs, hv, -⟩ := h
    cases hv
  | cons ch r =>
    by_cases hc : ch = ']'
    · subst hc
      rw [arrayReader, afterBlank_eq, hs, items_close hs]
      refine ⟨fun h => (by cases h), ?_⟩
      rintro ⟨vs, h, m, js, rfl, -⟩
      cases h
    · simp only [items_open hs hc, someItems_iff]
      rw [arrayReader, afterBlank_eq, hs]
      constructor
      · intro h
        obtain ⟨t, ht, rfl, rfl⟩ := Reader.run_eq_ok.1 h
        dsimp only at ht
        rw [if_neg hc] at ht
        obtain ⟨m, hm, ht⟩ := bind_eq_ok ht
        obtain ⟨u, hu, ht⟩ := bind_eq_ok ht
        obtain ⟨c', hc', ht⟩ := bind_eq_ok ht
        cases ht
        exact ⟨_, ⟨_, u.value, m.rest, Method.name_iff.1 (Reader.run_eq_ok.2 ⟨m, hm, rfl, rfl⟩),
          Reader.run_eq_ok.2 ⟨u, hu, rfl, rfl⟩, rfl⟩, m.value, u.value, rfl, mapError_eq_ok hc'⟩
      · rintro ⟨vs, ⟨v, vs', r', hv, hmore, rfl⟩, m, js, he, hc'⟩
        obtain ⟨rfl, rfl⟩ := List.cons.inj he
        obtain ⟨_, hm⟩ := Reader.eq_of_run (Method.name_iff.2 hv)
        obtain ⟨_, hu⟩ := Reader.eq_of_run hmore
        rw [Reader.run]
        dsimp only
        rw [if_neg hc]
        simp only [hm, hu, hc', bind, Except.bind, mapError_ok]
        rfl

/-- A command is read where a value that denotes it would be read. -/
theorem reader_iff [ExactPayload V] {d : Nat} {cs rest : List Char} {c : Command V} :
    (reader (Json.value d)).run cs = .ok (c, rest) ↔
      ∃ v, (Json.value (d + 1)).run cs = .ok (v, rest) ∧ Denotes v c := by
  rw [reader, afterBlank_eq]
  cases hs : skipBlank cs with
  | nil =>
    rw [value_nil hs]
    refine ⟨fun h => (by cases h), fun h => ?_⟩
    obtain ⟨v, hv, -⟩ := h
    cases hv
  | cons ch r =>
    by_cases ho : ch = '\x7b'
    · subst ho
      simp only [value_brace_iff hs]
      constructor
      · intro h
        obtain ⟨t, ht, rfl, rfl⟩ := Reader.run_eq_ok.1 h
        obtain ⟨u, hu, rfl⟩ := map_eq_ok ht
        obtain ⟨ms, hms, hd⟩ := objectReader_iff.1 (Reader.run_eq_ok.2 ⟨u, hu, rfl, rfl⟩)
        exact ⟨_, ⟨ms, hms, rfl⟩, hd⟩
      · rintro ⟨v, ⟨ms, hms, rfl⟩, hd⟩
        obtain ⟨_, hu⟩ := Reader.eq_of_run (objectReader_iff.2 ⟨ms, hms, hd⟩)
        rw [Reader.run]
        dsimp only
        rw [if_pos rfl, hu]
        rfl
    by_cases ha : ch = '['
    · subst ha
      simp only [value_bracket_iff hs]
      constructor
      · intro h
        obtain ⟨t, ht, rfl, rfl⟩ := Reader.run_eq_ok.1 h
        obtain ⟨u, hu, rfl⟩ := map_eq_ok ht
        obtain ⟨vs, hvs, hd⟩ := arrayReader_iff.1 (Reader.run_eq_ok.2 ⟨u, hu, rfl, rfl⟩)
        exact ⟨_, ⟨vs, hvs, rfl⟩, hd⟩
      · rintro ⟨v, ⟨vs, hvs, rfl⟩, hd⟩
        obtain ⟨_, hu⟩ := Reader.eq_of_run (arrayReader_iff.2 ⟨vs, hvs, hd⟩)
        rw [Reader.run]
        dsimp only
        rw [if_neg (by decide), if_pos rfl, hu]
        rfl
    · -- a scalar is read and refused, and denotes nothing
      constructor
      · intro h
        obtain ⟨t, ht, -⟩ := Reader.run_eq_ok.1 h
        dsimp only at ht
        rw [if_neg ho, if_neg ha] at ht
        obtain ⟨v, -, ht⟩ := bind_eq_ok ht
        cases ht
      · rintro ⟨v, hv, hd⟩
        rw [value_flat hs ha ho] at hv
        have hflat : v.Flat := scalar_flat hv
        cases hd <;> cases hflat

/-- A text is read as a command exactly if it reads as a value that denotes it. -/
theorem decode_iff [ExactPayload V] {text : String} {c : Command V} :
    decode text = .ok c ↔ ∃ v, Json.read text = .ok v ∧ Denotes v c := by
  rw [decode, whole_iff]
  simp only [Json.read, whole_iff]
  constructor
  · rintro ⟨rest, h, he⟩
    obtain ⟨v, hv, hd⟩ := reader_iff.1 h
    exact ⟨v, ⟨rest, hv, he⟩, hd⟩
  · rintro ⟨v, ⟨rest, hv, he⟩, hd⟩
    exact ⟨rest, reader_iff.2 ⟨v, hv, hd⟩, he⟩

end

/-! ## All payloads -/

/-- For integers, texts, optional integers and lists of integers, a text is read as a command
exactly if it reads as a value of the shape of one, and the command has its fields. -/
theorem decode_shape :
    (∀ (text : String) (c : Command Int64),
      decode text = .ok c ↔ ∃ v, Json.read text = .ok v ∧ Denotes v c) ∧
    (∀ (text : String) (c : Command String),
      decode text = .ok c ↔ ∃ v, Json.read text = .ok v ∧ Denotes v c) ∧
    (∀ (text : String) (c : Command (Option Int64)),
      decode text = .ok c ↔ ∃ v, Json.read text = .ok v ∧ Denotes v c) ∧
    ∀ (text : String) (c : Command (List Int64)),
      decode text = .ok c ↔ ∃ v, Json.read text = .ok v ∧ Denotes v c :=
  ⟨fun _ _ => decode_iff, fun _ _ => decode_iff, fun _ _ => decode_iff, fun _ _ => decode_iff⟩

end Command

end TwoPhaseStore
