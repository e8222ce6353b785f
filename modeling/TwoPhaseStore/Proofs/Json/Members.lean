import TwoPhaseStore.Proofs.Json.Values

/-!
Objects and arrays that are read part by part, whatever the text.  Where what is done with a member
comes down to its value (`Follows`), the whole object comes down to its members, and two ways to
read an object see the same members:

    Follows inner member add → ((objectRest member known).run cs = .ok (last, rest) ↔
      ∃ ms, ObjectRest inner cs ms rest ∧ ms.foldlM add known = some last)       (objectRest_iff)
    skipBlank cs = '\x7b' :: r → ((value (d + 1)).run cs = .ok (v, rest) ↔
      ∃ ms, ObjectRest (value d) r ms rest ∧ v = .obj ms)                       (value_brace_iff)
-/

namespace TwoPhaseStore.Json

open Text

theorem length_of_run {α : Type} {read : Reader DecodeError α} {cs rest : List Char} {a : α}
    (h : read.run cs = .ok (a, rest)) : rest.length < cs.length := by
  obtain ⟨t, -, -, rfl⟩ := Reader.run_eq_ok.1 h
  exact t.shorter

/-! ## Members -/

/-- The text is the value of a member, from its colon on. -/
def MemberValue (inner : Reader DecodeError Json) (cs : List Char) (v : Json)
    (rest : List Char) : Prop :=
  ∃ r, (expect ':').run cs = .ok ((), r) ∧ inner.run r = .ok (v, rest)

/-- The text is these members of an object, from a name on, and its closing brace. -/
inductive MembersRest (inner : Reader DecodeError Json) :
    List Char → List (String × Json) → List Char → Prop where
  | last {cs r r' rest : List Char} {name : String} {v : Json}
    (hn : memberName.run cs = .ok (name, r)) (hv : MemberValue inner r v r')
    (hg : (afterBlank (goesOn '\x7d')).run r' = .ok (false, rest)) :
    MembersRest inner cs [(name, v)] rest
  | more {cs r r' r'' rest : List Char} {name : String} {v : Json} {ms : List (String × Json)}
    (hn : memberName.run cs = .ok (name, r)) (hv : MemberValue inner r v r')
    (hg : (afterBlank (goesOn '\x7d')).run r' = .ok (true, r''))
    (hs : MembersRest inner r'' ms rest) : MembersRest inner cs ((name, v) :: ms) rest

/-- The text is the rest of an object, after the opening brace. -/
inductive ObjectRest (inner : Reader DecodeError Json) (cs : List Char) :
    List (String × Json) → List Char → Prop where
  | empty {rest : List Char} (h : skipBlank cs = '\x7d' :: rest) : ObjectRest inner cs [] rest
  | members {c : Char} {r rest : List Char} {ms : List (String × Json)}
    (h : skipBlank cs = c :: r) (hc : c ≠ '\x7d') (hs : MembersRest inner (c :: r) ms rest) :
    ObjectRest inner cs ms rest

section
variable {σ : Type} {inner : Reader DecodeError Json} {member : MemberReader σ}
  {add : σ → String × Json → Option σ} {known last : σ} {cs rest : List Char}

/-- All that is done with a member is that its value is read and that it is added. -/
def Follows (inner : Reader DecodeError Json) (member : MemberReader σ)
    (add : σ → String × Json → Option σ) : Prop :=
  ∀ (known : σ) (name : String) (cs : List Char) (known' : σ) (rest : List Char),
    (member known name).run cs = .ok (known', rest) ↔
      ∃ v, MemberValue inner cs v rest ∧ add known (name, v) = some known'

/-- An object from a name on is read by adding its members one after another. -/
theorem members_iff (h : Follows inner member add) :
    Reader.run (members member known) cs = .ok (last, rest) ↔
      ∃ ms, MembersRest inner cs ms rest ∧ ms.foldlM add known = some last := by
  constructor
  · -- every member takes some of the text
    generalize hn : cs.length = n
    induction n using Nat.strongRecOn generalizing cs known with
    | ind n ih =>
      intro hrun
      obtain ⟨name, r, known', r', hname, hm, hend⟩ := members_step.1 hrun
      obtain ⟨v, hv, ha⟩ := (h _ _ _ _ _).1 hm
      rcases hend with ⟨hg, rfl⟩ | ⟨r'', hg, hs⟩
      · exact ⟨[(name, v)], .last hname hv hg, by simp [ha]⟩
      · have hlt : r''.length < n := by
          have h₁ := length_of_run hname
          have h₂ := length_of_run hm
          have h₃ := length_of_run hg
          omega
        obtain ⟨ms, hms, hf⟩ := ih _ hlt rfl hs
        refine ⟨(name, v) :: ms, .more hname hv hg hms, ?_⟩
        rw [List.foldlM_cons, ha]
        exact hf
  · rintro ⟨ms, hms, hf⟩
    induction hms generalizing known with
    | @last cs r r' rest name v hn hv hg =>
      obtain ⟨known', ha, hf⟩ := Option.bind_eq_some_iff.1 hf
      cases hf
      exact members_step.2 ⟨name, r, last, r', hn, (h _ _ _ _ _).2 ⟨v, hv, ha⟩, .inl ⟨hg, rfl⟩⟩
    | @more cs r r' r'' rest name v ms hn hv hg hs ih =>
      obtain ⟨known', ha, hf⟩ := Option.bind_eq_some_iff.1 hf
      exact members_step.2 ⟨name, r, known', r', hn, (h _ _ _ _ _).2 ⟨v, hv, ha⟩,
        .inr ⟨r'', hg, ih hf⟩⟩

/-- An object without members is closed at once. -/
theorem objectRest_close {r : List Char} (hs : skipBlank cs = '\x7d' :: r) :
    (objectRest member known).run cs = .ok (known, r) := by
  rw [objectRest, afterBlank_eq, hs]
  rfl

theorem objectRest_open {c : Char} {r : List Char} (hs : skipBlank cs = c :: r)
    (hc : c ≠ '\x7d') :
    (objectRest member known).run cs = Reader.run (members member known) (c :: r) := by
  rw [objectRest, afterBlank_eq, hs, Reader.run]
  dsimp only
  rw [if_neg hc]
  rfl

/-- An object is read by adding its members one after another. -/
theorem objectRest_iff (h : Follows inner member add) :
    (objectRest member known).run cs = .ok (last, rest) ↔
      ∃ ms, ObjectRest inner cs ms rest ∧ ms.foldlM add known = some last := by
  constructor
  · intro hrun
    cases hs : skipBlank cs with
    | nil =>
      rw [objectRest, afterBlank_eq, hs] at hrun
      cases hrun
    | cons c r =>
      by_cases hc : c = '\x7d'
      · rw [objectRest_close (hc ▸ hs)] at hrun
        cases hrun
        exact ⟨[], .empty (hc ▸ hs), rfl⟩
      · rw [objectRest_open hs hc] at hrun
        obtain ⟨ms, hms, hf⟩ := (members_iff h).1 hrun
        exact ⟨ms, .members hs hc hms, hf⟩
  · rintro ⟨ms, ho, hf⟩
    cases ho with
    | empty hs =>
      cases hf
      exact objectRest_close hs
    | members hs hc hms =>
      rw [objectRest_open hs hc]
      exact (members_iff h).2 ⟨ms, hms, hf⟩

end

/-! ## Values -/

/-- A value that is neither an array nor an object. -/
def Flat : Json → Prop
  | arr _ => False
  | obj _ => False
  | _ => True

theorem number_flat {cs : List Char} {t : Taken Json cs} (h : number cs = .ok t) :
    t.value.Flat := by
  obtain ⟨n, -, h⟩ := bind_eq_ok h
  obtain ⟨v, hv, h⟩ := bind_eq_ok h
  cases h
  show v.Flat
  unfold Numeral.value at hv
  split at hv
  · cases hv
    trivial
  · split at hv
    · cases hv
      trivial
    · cases hv

theorem word_value {ε α : Type} [ReadError ε] {a : α} {ws cs : List Char} {t : Scanned α cs}
    (h : word (ε := ε) a ws cs = .ok t) : t.value = a := by
  induction ws generalizing cs with
  | nil =>
    cases h
    rfl
  | cons w ws ih =>
    cases cs with
    | nil => cases h
    | cons c cs =>
      rw [word] at h
      split at h
      · obtain ⟨u, hu, rfl⟩ := map_eq_ok h
        show u.value = a
        exact ih hu
      · cases h

/-- What is read as a scalar is one. -/
theorem scalar_flat {cs rest : List Char} {v : Json} (h : scalar.run cs = .ok (v, rest)) :
    v.Flat := by
  have hword : ∀ {c : Char} {r : List Char} {a : Json} {ws : List Char} {t : Taken Json (c :: r)},
      a.Flat → (word a ws r : Except DecodeError _).map (Scanned.after c) = .ok t →
      t.value.Flat := by
    intro c r a ws t ha ht
    obtain ⟨u, hu, rfl⟩ := map_eq_ok ht
    show u.value.Flat
    rwa [word_value hu]
  obtain ⟨t, ht, rfl, -⟩ := Reader.run_eq_ok.1 h
  cases cs with
  | nil => cases ht
  | cons c r =>
    rw [scalar] at ht
    split at ht
    · obtain ⟨u, -, rfl⟩ := map_eq_ok ht
      trivial
    split at ht
    · exact hword (a := .null) trivial ht
    split at ht
    · exact hword (a := .bool true) trivial ht
    split at ht
    · exact hword (a := .bool false) trivial ht
    split at ht
    · exact number_flat ht
    · cases ht

section
variable {d : Nat} {c : Char} {cs r rest : List Char} {v : Json}

/-- A member of a value is kept with its name. -/
theorem keepMember_follows (inner : Reader DecodeError Json) :
    Follows inner (keepMember inner) fun known m => some (m :: known) := by
  intro known name cs known' rest
  constructor
  · intro h
    obtain ⟨t, ht, rfl, rfl⟩ := Reader.run_eq_ok.1 h
    obtain ⟨colon, hc, ht⟩ := bind_eq_ok ht
    obtain ⟨u, hu, ht⟩ := bind_eq_ok ht
    cases ht
    exact ⟨u.value, ⟨colon.rest, Reader.run_eq_ok.2 ⟨colon, hc, rfl, rfl⟩,
      Reader.run_eq_ok.2 ⟨u, hu, rfl, rfl⟩⟩, rfl⟩
  · rintro ⟨v, ⟨r, hc, hv⟩, hk⟩
    cases hk
    obtain ⟨_, hc⟩ := Reader.eq_of_run hc
    obtain ⟨_, hv⟩ := Reader.eq_of_run hv
    rw [Reader.run, keepMember]
    simp only [hc, hv, bind, Except.bind]
    rfl

theorem foldlM_keep (ms known : List (String × Json)) :
    ms.foldlM (fun known m => some (m :: known)) known = some (ms.reverse ++ known) := by
  induction ms generalizing known with
  | nil => rfl
  | cons m ms ih =>
    rw [List.foldlM_cons, List.reverse_cons, List.append_assoc]
    exact ih (m :: known)

theorem value_brace_iff (hs : skipBlank cs = '\x7b' :: r) :
    (value (d + 1)).run cs = .ok (v, rest) ↔
      ∃ ms, ObjectRest (value d) r ms rest ∧ v = .obj ms := by
  have hrest : ∀ ms, ObjectRest (value d) r ms rest ↔
      (objectRest (keepMember (value d)) []).run r = .ok (ms.reverse, rest) := by
    intro ms
    rw [objectRest_iff (keepMember_follows (value d))]
    constructor
    · exact fun h => ⟨ms, h, by rw [foldlM_keep, List.append_nil]⟩
    · rintro ⟨ms', h, hf⟩
      rw [foldlM_keep, List.append_nil] at hf
      exact List.reverse_inj.1 (Option.some.inj hf) ▸ h
  rw [value, valueOver, afterBlank_eq, hs]
  constructor
  · intro h
    obtain ⟨t, ht, rfl, rfl⟩ := Reader.run_eq_ok.1 h
    obtain ⟨u, hu, rfl⟩ := map_eq_ok ht
    refine ⟨u.value.reverse, (hrest _).2 ?_, rfl⟩
    rw [List.reverse_reverse]
    exact Reader.run_eq_ok.2 ⟨u, hu, rfl, rfl⟩
  · rintro ⟨ms, hm, rfl⟩
    obtain ⟨_, hm⟩ := Reader.eq_of_run ((hrest _).1 hm)
    rw [Reader.run]
    dsimp only
    rw [if_neg (by decide), if_pos rfl, hm]
    simp only [Except.map, Taken.map, Taken.after, Taken.within, List.reverse_reverse]

theorem value_nil (hs : skipBlank cs = []) : (value d).run cs = .error .endOfText := by
  cases d <;>
  · rw [value, valueOver, afterBlank_eq, hs]
    rfl

end

/-! ## Arrays -/

section
variable {item : Reader DecodeError Json} {cs rest : List Char} {vs : List Json}

theorem items_close {r : List Char} (hs : skipBlank cs = ']' :: r) :
    (items item).run cs = .ok ([], r) := by
  rw [items, afterBlank_eq, hs]
  rfl

end

/-! ## Whole texts -/

theorem whole_iff {α : Type} {read : Reader DecodeError α} {text : String} {a : α} :
    whole read text = .ok a ↔
      ∃ rest, read.run text.toList = .ok (a, rest) ∧ skipBlank rest = [] := by
  constructor
  · intro h
    obtain ⟨t, ht, h⟩ := bind_eq_ok h
    split at h
    · next he =>
      cases h
      exact ⟨t.rest, Reader.run_eq_ok.2 ⟨t, ht, rfl, rfl⟩, List.isEmpty_iff.1 he⟩
    · cases h
  · rintro ⟨rest, hr, he⟩
    obtain ⟨_, ht⟩ := Reader.eq_of_run hr
    rw [whole, ht]
    show (if (skipBlank rest).isEmpty then _ else _) = _
    rw [he]
    rfl

end TwoPhaseStore.Json
