import Mathlib.Data.List.TakeWhile
import TwoPhaseStore.Proofs.Json.Torn
import TwoPhaseStore.Proofs.RoundTrip

/-!
Written commands delimit themselves.  One whose end is missing, wherever it was cut off, is found to
end too early, and one with something behind it is malformed, unless that is white space:

    c.SelfDelimiting                                                           (self_delimiting)

So of a log of commands, an entry that was torn or glued to another one is told from one that is
whole, and from one that never was a command.
-/

namespace TwoPhaseStore

open Text Json

theorem Json.whole_error {α : Type} {read : Reader DecodeError α} {text : String} {e : DecodeError}
    (h : read.run text.toList = .error e) : whole read text = .error e := by
  rw [Reader.run_eq_error] at h
  rw [whole, h]
  rfl

/-- Behind what is read nothing but white space may stand. -/
theorem Json.whole_append {α : Type} {read : Reader DecodeError α} {cs : List Char} {t : String}
    {a : α} (h : read.run (cs ++ t.toList) = .ok (a, t.toList)) :
    whole read (.ofList cs ++ t) =
      if t.toList.all isBlank then .ok a else .error .malformed := by
  obtain ⟨_, ht⟩ := Reader.eq_of_run h
  have hb : (skipBlank t.toList).isEmpty = t.toList.all isBlank := by
    rw [Bool.eq_iff_iff, List.isEmpty_iff, skipBlank, List.dropWhile_eq_nil_iff, List.all_eq_true]
  rw [whole, String.toList_append, String.toList_ofList, ht]
  simp only [bind, Except.bind, hb]
  rfl

theorem Method.name_exhausts (m : Method) : Exhausts name m.toJson.render := by
  have hm : Misses name m.toJson.render := by
    refine misses_renderString m.text rfl fun p hp => ?_
    rw [Reader.run_eq_error] at hp ⊢
    have hs : scalarFor .methodName ('"' :: p) = .error .endOfText := by
      rw [← Reader.run_eq_error, scalarFor, afterBlank_run _ rfl, Reader.run_eq_error]
      show scalar ('"' :: p) = _
      rw [scalar, if_pos rfl, hp]
      rfl
    rw [name, hs]
    rfl
  have hn := m.name_render []
  rw [List.append_nil] at hn
  exact hm.exhausts hn

namespace Command

variable {V : Type} [Payload V]

section
variable {inner : Reader DecodeError Json}

theorem memberReader_method_exhausts (m : Method) (known : Members) (hk : known.method = none) :
    Exhausts (memberReader inner known "method") (':' :: m.toJson.render) := by
  refine exhausts_cons (f := fun m => { known with method := some m }) ?_ (fun p => ?_)
    m.name_exhausts
  · rw [Reader.run, memberReader, if_pos rfl, hk]
    rfl
  · obtain ⟨_, hc⟩ := Reader.eq_of_run (expect_run ':' rfl p)
    rw [Reader.run, Reader.run, memberReader, if_pos rfl, hk]
    simp only [hc, bind, Except.bind]
    cases Method.name p <;> rfl

theorem memberReader_other_exhausts {name : String} (hn : name ≠ "method") {v : Json}
    (h : Exhausts inner v.render) (known : Members) :
    Exhausts (memberReader inner known name) (':' :: v.render) := by
  have hrun : ∀ p, (memberReader inner known name).run p =
      ((keepMember inner known.others name).run p).map fun x =>
        ({ known with others := x.1 }, x.2) := by
    intro p
    rw [Reader.run, Reader.run, memberReader, if_neg hn]
    cases keepMember inner known.others name p <;> rfl
  refine exhausts_cons (f := fun v => { known with others := (name, v) :: known.others }) ?_
    (fun p => ?_) h
  · rw [hrun]
    rfl
  · rw [hrun, keepMember_colon]
    cases inner.run p <;> rfl

theorem others_tears {ms : List (String × Json)} (hn : ∀ m ∈ ms, m.1 ≠ "method")
    (hr : ∀ m ∈ ms, Reads inner m.2) (ht : ∀ m ∈ ms, Exhausts inner m.2.render)
    (known : Members) : Tears (memberReader inner) known ms := by
  induction ms generalizing known with
  | nil => exact .nil known
  | cons m ms ih =>
    have hm := hn m List.mem_cons_self
    refine .cons (fun rest hd => memberReader_other hm (hr m List.mem_cons_self) known hd)
      (memberReader_other_exhausts hm (ht m List.mem_cons_self) known) ?_
    exact ih (fun m hm => hn m (List.mem_cons_of_mem _ hm))
      (fun m hm => hr m (List.mem_cons_of_mem _ hm))
      (fun m hm => ht m (List.mem_cons_of_mem _ hm)) _

/-- A command that is cut off ends too early; its fields are not judged before its end. -/
theorem reader_misses (c : Command V) (hr : ∀ m ∈ c.others, Reads inner m.2)
    (ht : ∀ m ∈ c.others, Exhausts inner m.2.render) :
    Misses (reader inner : Reader DecodeError (Command V)) c.toJson.render := by
  have htears : Tears (memberReader inner) ⟨none, []⟩
      (("method", c.method.toJson) :: c.others) :=
    .cons (fun rest _ => memberReader_method c.method _ rfl rest)
      (memberReader_method_exhausts c.method _ rfl)
      (others_tears (fun _ => ne_method_of_mem_others) hr ht _)
  obtain ⟨w, hw, hm⟩ := objectRest_misses htears
  rw [toJson_eq, hw]
  refine misses_cons rfl (fun p hp => ?_) hm
  rw [Reader.run_eq_error] at hp
  have ho : (objectReader inner : Reader DecodeError (Command V)) p = .error .endOfText := by
    rw [objectReader, hp]
    rfl
  rw [reader, afterBlank_run _ rfl, Reader.run_eq_error]
  dsimp only
  rw [if_pos rfl, ho]
  rfl

end

/-- The written form of a command is whole, and is found not to be when it is not. -/
structure SelfDelimiting (c : Command V) : Prop where
  whole : (decode c.encode : Except DecodeError (Command V)) = .ok c.legible
  /-- Without its end, wherever it was cut off, it ends too early. -/
  torn : ∀ p t : String, p ++ t = c.encode → t ≠ "" →
    (decode p : Except DecodeError (Command V)) = .error .endOfText
  /-- White space behind it makes no difference. -/
  padded : ∀ t : String, (∀ ch ∈ t.toList, isBlank ch = true) →
    (decode (c.encode ++ t) : Except DecodeError (Command V)) = decode c.encode
  /-- With anything else behind it, it is malformed. -/
  glued : ∀ t : String, ¬ (∀ ch ∈ t.toList, isBlank ch = true) →
    (decode (c.encode ++ t) : Except DecodeError (Command V)) = .error .malformed

theorem selfDelimiting [PlainPayload V] (c : Command V) : c.SelfDelimiting := by
  have hd : 1 ≤ maxDepth - 1 := by decide
  have hfits : ∀ m ∈ c.others, m.2.Fits (maxDepth - 1) := fun m hm => (c.fits_others m hm).mono hd
  have happend : ∀ t : String, (decode (c.encode ++ t) : Except DecodeError (Command V)) =
      if t.toList.all isBlank then .ok c.legible else .error .malformed := fun t =>
    whole_append (reader_render c (fun m hm => (hfits m hm).reads) t.toList)
  refine ⟨decode_encode c, fun p t hp ht => ?_, fun t ht => ?_, fun t ht => ?_⟩
  · have hm := reader_misses c (fun m hm => (hfits m hm).reads) fun m hm => (hfits m hm).exhausts
    have hcut : p.toList ++ t.toList = c.toJson.render := by
      rw [← String.toList_append, hp, encode, String.toList_ofList]
    refine whole_error (hm _ _ hcut fun he => ht ?_)
    rw [← String.toList_inj, he]
    rfl
  · rw [happend, if_pos (List.all_eq_true.2 ht), decode_encode]
  · rw [happend, if_neg fun h => ht (List.all_eq_true.1 h)]

/-- Commands over integers, texts, optional integers and lists of integers delimit themselves. -/
theorem self_delimiting :
    (∀ c : Command Int64, c.SelfDelimiting) ∧ (∀ c : Command String, c.SelfDelimiting) ∧
      (∀ c : Command (Option Int64), c.SelfDelimiting) ∧
      ∀ c : Command (List Int64), c.SelfDelimiting :=
  ⟨selfDelimiting, selfDelimiting, selfDelimiting, selfDelimiting⟩

end Command

end TwoPhaseStore
