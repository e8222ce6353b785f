import TwoPhaseStore.Proofs.Json.Scalars

/-!
Values are read back as they are written, if they have no doubles, their numbers fit 64 bits and
they are not nested too deep (`Fits`):

    v.Fits d → Delimited rest → (value d).run (v.render ++ rest) = .ok (v, rest)       (Fits.reads)

Objects are read by way of what is done with each member.  When every member in turn is taken up, so
is the whole object (`TakesUp`, `members_render`).
-/

namespace TwoPhaseStore.Json

open Text

/-- Values without doubles, with numbers of 64 bits, and with at most so many arrays and objects
around each other. -/
inductive Fits : Nat → Json → Prop where
  | null {d : Nat} : Fits d null
  | bool {d : Nat} (b : Bool) : Fits d (bool b)
  | int {d : Nat} {n : Int} (h : Whole n) : Fits d (int n)
  | str {d : Nat} (s : String) : Fits d (str s)
  | arr {d : Nat} {vs : List Json} (h : ∀ v ∈ vs, Fits d v) : Fits (d + 1) (arr vs)
  | obj {d : Nat} {ms : List (String × Json)} (h : ∀ m ∈ ms, Fits d m.2) : Fits (d + 1) (obj ms)

/-- The reader gives the value back that it was written for. -/
def Reads (read : Reader DecodeError Json) (v : Json) : Prop :=
  ∀ rest, Delimited rest → read.run (v.render ++ rest) = .ok (v, rest)

/-! ## White space and marks -/

theorem afterBlank_eq {α : Type} (read : Reader DecodeError α) (cs : List Char) :
    (afterBlank read).run cs = read.run (skipBlank cs) :=
  Reader.run_skipping length_skipBlank_le read cs

theorem skipBlank_cons {c : Char} (hc : isBlank c = false) (r : List Char) :
    skipBlank (c :: r) = c :: r := by
  simp [skipBlank, hc]

/-- What reads after white space reads at once where there is none. -/
theorem afterBlank_run {α : Type} (read : Reader DecodeError α) {c : Char} {r : List Char}
    (hc : isBlank c = false) : (afterBlank read).run (c :: r) = read.run (c :: r) := by
  rw [afterBlank_eq, skipBlank_cons hc]

theorem expect_run (wanted : Char) (h : isBlank wanted = false) (r : List Char) :
    (expect wanted).run (wanted :: r) = .ok ((), r) := by
  rw [expect, afterBlank_run _ h, Reader.run, mark, if_pos rfl]
  rfl

/-- A list goes on behind a comma. -/
theorem goesOn_comma (close : Char) (r : List Char) :
    ∃ hl, afterBlank (goesOn (ε := DecodeError) close) (',' :: r) = .ok ⟨true, r, hl⟩ :=
  ⟨_, rfl⟩

/-- What follows a part of an array or an object. -/
theorem delimited_cons {c : Char} (h : c = ',' ∨ c = ']' ∨ c = '\x7d') (r : List Char) :
    Delimited (c :: r) := by
  intro c' r' he
  obtain rfl : c = c' := (List.cons.inj he).1
  rcases h with rfl | rfl | rfl <;> exact ⟨rfl, by decide, by decide, by decide⟩

/-! ## Arrays -/

section
variable {item : Reader DecodeError Json} {vs : List Json} {cs r rest : List Char}

theorem moreItems_close (rest : List Char) :
    Reader.run (moreItems item) (']' :: rest) = .ok ([], rest) := by
  obtain ⟨_, hc⟩ : ∃ hl, afterBlank (goesOn (ε := DecodeError) ']') (']' :: rest) =
    .ok ⟨false, rest, hl⟩ := ⟨_, rfl⟩
  rw [Reader.run, moreItems, hc]

/-- One item of an array, and those behind it. -/
def someItems (item : Reader DecodeError Json) : Reader DecodeError (List Json) :=
  item.andThen fun v cs => (moreItems item cs).map fun t => t.map (v :: ·)

theorem someItems_iff : (someItems item).run cs = .ok (vs, rest) ↔
    ∃ v vs' r, item.run cs = .ok (v, r) ∧ Reader.run (moreItems item) r = .ok (vs', rest) ∧
      vs = v :: vs' := by
  rw [someItems, Reader.run_andThen_eq_ok]
  constructor
  · rintro ⟨v, r, hv, hm⟩
    obtain ⟨t, ht, rfl, rfl⟩ := Reader.run_eq_ok.1 hm
    obtain ⟨u, hu, rfl⟩ := map_eq_ok ht
    exact ⟨v, u.value, r, hv, Reader.run_eq_ok.2 ⟨u, hu, rfl, rfl⟩, rfl⟩
  · rintro ⟨v, vs', r, hv, hm, rfl⟩
    obtain ⟨_, hm⟩ := Reader.eq_of_run hm
    refine ⟨v, r, hv, ?_⟩
    rw [Reader.run, hm]
    rfl

/-- An array that is not closed at once has a first item. -/
theorem items_open {c : Char} (hs : skipBlank cs = c :: r) (hc : c ≠ ']') :
    (items item).run cs = (someItems item).run (c :: r) := by
  rw [items, afterBlank_eq, hs, Reader.run, Reader.run, someItems, Reader.andThen]
  dsimp only
  rw [if_neg hc]
  cases item (c :: r) with
  | error e => rfl
  | ok t =>
    simp only [bind, Except.bind]
    cases moreItems item t.rest <;> rfl

theorem moreItems_comma (r : List Char) :
    Reader.run (moreItems item) (',' :: r) = (someItems item).run r := by
  obtain ⟨_, hc⟩ := goesOn_comma ']' r
  rw [Reader.run, Reader.run, moreItems, hc, someItems, Reader.andThen]
  dsimp only
  cases item r with
  | error e => rfl
  | ok t =>
    simp only [bind, Except.bind]
    cases moreItems item t.rest <;> rfl

theorem delimited_items (vs : List Json) (rest : List Char) :
    Delimited (renderItems vs ++ ']' :: rest) := by
  cases vs with
  | nil => exact delimited_cons (.inr (.inl rfl)) rest
  | cons v vs => exact delimited_cons (.inl rfl) _

theorem moreItems_render (h : ∀ v ∈ vs, Reads item v) (rest : List Char) :
    Reader.run (moreItems item) (renderItems vs ++ ']' :: rest) = .ok (vs, rest) := by
  induction vs with
  | nil => exact moreItems_close rest
  | cons v vs ih =>
    have hcons : renderItems (v :: vs) ++ ']' :: rest =
        ',' :: (v.render ++ (renderItems vs ++ ']' :: rest)) := by simp [renderItems]
    rw [hcons, moreItems_comma]
    exact someItems_iff.2 ⟨v, vs, _, h v List.mem_cons_self _ (delimited_items vs rest),
      ih fun v hv => h v (List.mem_cons_of_mem _ hv), rfl⟩

/-- The written form begins with a character that is neither white space nor the end of an array. -/
def Begins (v : Json) : Prop := ∃ c r, v.render = c :: r ∧ isBlank c = false ∧ c ≠ ']'

theorem items_render (hb : ∀ v ∈ vs, Begins v) (h : ∀ v ∈ vs, Reads item v) (rest : List Char) :
    ∃ cs, (arr vs).render ++ rest = '[' :: cs ∧ (items item).run cs = .ok (vs, rest) := by
  cases vs with
  | nil => exact ⟨']' :: rest, rfl, afterBlank_run _ rfl⟩
  | cons v vs =>
    refine ⟨v.render ++ (renderItems vs ++ ']' :: rest), by simp [render], ?_⟩
    obtain ⟨c, r, hr, hblank, hc⟩ := hb v List.mem_cons_self
    have hv := h v List.mem_cons_self _ (delimited_items vs rest)
    have hm := moreItems_render (fun v hv => h v (List.mem_cons_of_mem _ hv)) rest
    rw [hr] at hv ⊢
    rw [List.cons_append, items_open (skipBlank_cons hblank _) hc]
    exact someItems_iff.2 ⟨v, vs, _, hv, hm, rfl⟩

end

/-! ## Objects -/

theorem memberName_render (name : String) (rest : List Char) :
    memberName.run (renderString name ++ rest) = .ok (name, rest) := by
  obtain ⟨_, ht⟩ := Reader.eq_of_run (stringRest_render name.toList rest)
  have hcons : renderString name ++ rest =
      '"' :: (name.toList.flatMap escapeChar ++ '"' :: rest) := by simp [renderString]
  rw [hcons, memberName, afterBlank_run _ rfl, Reader.run]
  dsimp only
  rw [if_pos rfl, ht]
  simp only [Except.map, Taken.map, Taken.after, Taken.within, String.ofList_toList]

section
variable {σ : Type} {member : MemberReader σ} {known last : σ} {cs rest : List Char}

/-- What stands behind a member, the closing brace or more members. -/
def moreMembers (member : MemberReader σ) (known : σ) : Reader DecodeError σ := fun cs => do
  let t ← afterBlank (goesOn '\x7d') cs
  if t.value then (members member known t.rest).map t.behind
  else return t.map fun _ => known

theorem members_run (cs : List Char) : Reader.run (members member known) cs =
    (memberName.andThen fun name => (member known name).andThen (moreMembers member)).run cs := by
  rw [Reader.run, Reader.run, members, Reader.andThen]
  cases memberName cs with
  | error e => rfl
  | ok t =>
    obtain ⟨name, r, h⟩ := t
    simp only [bind, Except.bind, Reader.andThen]
    cases member known name r with
    | error e => rfl
    | ok t =>
      obtain ⟨known', r', h'⟩ := t
      simp only [moreMembers]
      cases afterBlank (goesOn '\x7d') r' with
      | error e => rfl
      | ok t =>
        obtain ⟨more, r'', h''⟩ := t
        cases more with
        | false => rfl
        | true =>
          simp only [bind, Except.bind, if_true]
          cases members member known' r'' <;> rfl

theorem moreMembers_comma (r : List Char) :
    (moreMembers member known).run (',' :: r) = Reader.run (members member known) r := by
  obtain ⟨_, hc⟩ := goesOn_comma '\x7d' r
  rw [Reader.run, Reader.run, moreMembers, hc]
  simp only [bind, Except.bind, if_true]
  cases members member known r <;> rfl

theorem moreMembers_iff : (moreMembers member known).run cs = .ok (last, rest) ↔
    (afterBlank (goesOn '\x7d')).run cs = .ok (false, rest) ∧ known = last ∨
      ∃ r, (afterBlank (goesOn '\x7d')).run cs = .ok (true, r) ∧
        Reader.run (members member known) r = .ok (last, rest) := by
  constructor
  · intro h
    obtain ⟨t, ht, rfl, rfl⟩ := Reader.run_eq_ok.1 h
    obtain ⟨⟨more, r, hl⟩, hg, ht⟩ := bind_eq_ok ht
    cases more with
    | false =>
      cases ht
      exact .inl ⟨Reader.run_eq_ok.2 ⟨_, hg, rfl, rfl⟩, rfl⟩
    | true =>
      obtain ⟨u, hu, rfl⟩ := map_eq_ok ht
      exact .inr ⟨r, Reader.run_eq_ok.2 ⟨_, hg, rfl, rfl⟩, Reader.run_eq_ok.2 ⟨u, hu, rfl, rfl⟩⟩
  · rintro (⟨hg, rfl⟩ | ⟨r, hg, hs⟩)
    · obtain ⟨_, hg⟩ := Reader.eq_of_run hg
      rw [Reader.run, moreMembers, hg]
      rfl
    · obtain ⟨_, hg⟩ := Reader.eq_of_run hg
      obtain ⟨_, hs⟩ := Reader.eq_of_run hs
      rw [Reader.run, moreMembers, hg]
      simp only [bind, Except.bind, if_true, hs]
      rfl

/-- One member is read, and then the object is closed or goes on. -/
theorem members_step : Reader.run (members member known) cs = .ok (last, rest) ↔
    ∃ name r known' r', memberName.run cs = .ok (name, r) ∧
      (member known name).run r = .ok (known', r') ∧
      ((afterBlank (goesOn '\x7d')).run r' = .ok (false, rest) ∧ known' = last ∨
        ∃ r'', (afterBlank (goesOn '\x7d')).run r' = .ok (true, r'') ∧
          Reader.run (members member known') r'' = .ok (last, rest)) := by
  rw [members_run]
  simp only [Reader.run_andThen_eq_ok, moreMembers_iff, exists_and_left]

/-- One after another the members are taken up, each from its colon on. -/
inductive TakesUp (member : MemberReader σ) : σ → List (String × Json) → σ → Prop where
  | nil (known : σ) : TakesUp member known [] known
  | cons {known known' last : σ} {name : String} {v : Json} {ms : List (String × Json)}
    (h : ∀ rest, Delimited rest →
      (member known name).run (':' :: (v.render ++ rest)) = .ok (known', rest))
    (hs : TakesUp member known' ms last) : TakesUp member known ((name, v) :: ms) last

theorem members_render {m : String × Json} {ms : List (String × Json)}
    (h : TakesUp member known (m :: ms) last) (rest : List Char) :
    Reader.run (members member known) (renderMember m ++ (renderMembers ms ++ '\x7d' :: rest)) =
      .ok (last, rest) := by
  have hname : ∀ (name : String) (v : Json) (cs : List Char),
      memberName.run (renderMember (name, v) ++ cs) = .ok (name, ':' :: (v.render ++ cs)) := by
    intro name v cs
    rw [renderMember, List.append_assoc]
    exact memberName_render name _
  induction ms generalizing known m with
  | nil =>
    cases h with
    | cons h hs =>
      cases hs
      exact members_step.2 ⟨_, _, _, _, hname _ _ _, h _ (delimited_cons (.inr (.inr rfl)) rest),
        .inl ⟨rfl, rfl⟩⟩
  | cons m' ms ih =>
    cases h with
    | cons h hs =>
      have hmore : renderMembers (m' :: ms) ++ '\x7d' :: rest =
          ',' :: (renderMember m' ++ (renderMembers ms ++ '\x7d' :: rest)) := by
        simp [renderMembers]
      rw [hmore]
      exact members_step.2 ⟨_, _, _, _, hname _ _ _, h _ (delimited_cons (.inl rfl) _),
        .inr ⟨_, rfl, ih hs⟩⟩

theorem objectRest_render {ms : List (String × Json)} (h : TakesUp member known ms last)
    (rest : List Char) : ∃ cs, (obj ms).render ++ rest = '\x7b' :: cs ∧
      (objectRest member known).run cs = .ok (last, rest) := by
  cases ms with
  | nil =>
    cases h
    exact ⟨'\x7d' :: rest, rfl, afterBlank_run _ rfl⟩
  | cons m ms =>
    refine ⟨renderMember m ++ (renderMembers ms ++ '\x7d' :: rest), by simp [render], ?_⟩
    have hm := members_render h rest
    obtain ⟨cs, hcs⟩ : ∃ cs, renderMember m ++ (renderMembers ms ++ '\x7d' :: rest) =
        '"' :: cs := by
      obtain ⟨name, v⟩ := m
      exact ⟨_, rfl⟩
    rw [hcs] at hm ⊢
    rw [objectRest, afterBlank_run _ rfl]
    exact hm

end

/-- A member is kept with its name. -/
theorem keepMember_colon (read : Reader DecodeError Json) (known : List (String × Json))
    (name : String) (p : List Char) : (keepMember read known name).run (':' :: p) =
      (read.run p).map fun x => ((name, x.1) :: known, x.2) := by
  obtain ⟨_, hc⟩ := Reader.eq_of_run (expect_run ':' rfl p)
  rw [Reader.run, Reader.run, keepMember]
  simp only [hc, bind, Except.bind]
  cases read p <;> rfl

theorem keepMember_render {read : Reader DecodeError Json} {v : Json} (h : Reads read v)
    (known : List (String × Json)) (name : String) {rest : List Char} (hr : Delimited rest) :
    (keepMember read known name).run (':' :: (v.render ++ rest)) =
      .ok ((name, v) :: known, rest) := by
  rw [keepMember_colon, h rest hr]
  rfl

theorem keepMember_takesUp {read : Reader DecodeError Json} {ms : List (String × Json)}
    (h : ∀ m ∈ ms, Reads read m.2) (known : List (String × Json)) :
    TakesUp (keepMember read) known ms (ms.reverse ++ known) := by
  induction ms generalizing known with
  | nil => exact .nil known
  | cons m ms ih =>
    have hs := ih (fun m hm => h m (List.mem_cons_of_mem _ hm)) (m :: known)
    rw [List.reverse_cons, List.append_assoc]
    exact .cons (fun rest hr => keepMember_render (h m List.mem_cons_self) known m.1 hr) hs

/-! ## Values -/

theorem Fits.begins {d : Nat} {v : Json} (h : v.Fits d) : v.Begins := by
  cases h with
  | null => exact ⟨_, _, rfl, rfl, by decide⟩
  | bool b => cases b <;> exact ⟨_, _, rfl, rfl, by decide⟩
  | str s => exact ⟨_, _, rfl, rfl, by decide⟩
  | @arr _ vs => cases vs <;> exact ⟨_, _, rfl, rfl, by decide⟩
  | @obj _ ms => cases ms <;> exact ⟨_, _, rfl, rfl, by decide⟩
  | @int _ n =>
    obtain ⟨c, r, hr, hd⟩ := renderInt_cons n
    refine ⟨c, r, hr, ?_, ?_⟩
    · refine Bool.eq_false_iff.2 fun hb => ?_
      simp only [isBlank, Bool.or_eq_true, decide_eq_true_eq] at hb
      rcases hb with ((rfl | rfl) | rfl) | rfl <;> cases hd
    · rintro rfl
      cases hd

section
variable {d : Nat} {c : Char} {cs r rest : List Char} {v : Json}

theorem value_bracket_iff (hs : skipBlank cs = '[' :: r) :
    (value (d + 1)).run cs = .ok (v, rest) ↔
      ∃ vs, (items (value d)).run r = .ok (vs, rest) ∧ v = .arr vs := by
  rw [value, valueOver, afterBlank_eq, hs]
  constructor
  · intro h
    obtain ⟨t, ht, rfl, rfl⟩ := Reader.run_eq_ok.1 h
    obtain ⟨u, hu, rfl⟩ := map_eq_ok ht
    exact ⟨u.value, Reader.run_eq_ok.2 ⟨u, hu, rfl, rfl⟩, rfl⟩
  · rintro ⟨vs, hv, rfl⟩
    obtain ⟨_, hv⟩ := Reader.eq_of_run hv
    rw [Reader.run]
    dsimp only
    rw [if_pos rfl, hv]
    rfl

/-- A text that begins like a scalar is read as one, at whatever depth. -/
theorem value_flat (hs : skipBlank cs = c :: r) (ha : c ≠ '[') (ho : c ≠ '\x7b') :
    (value d).run cs = scalar.run (c :: r) := by
  cases d <;>
  · rw [value, valueOver, afterBlank_eq, hs, Reader.run]
    dsimp only
    rw [if_neg ha, if_neg ho]
    rfl

end

/-- Words are read back. -/
theorem scalar_word {c : Char} {ws : List Char} {v : Json} (rest : List Char)
    (hs : scalar (c :: (ws ++ rest)) = (word v ws (ws ++ rest)).map (Scanned.after c)) :
    scalar.run (c :: (ws ++ rest)) = .ok (v, rest) := by
  obtain ⟨t, ht, hv, hr⟩ := word_self (ε := DecodeError) v ws rest
  rw [Reader.run, hs, ht]
  simp only [Except.map, Scanned.after, hv, hr]

/-- What is written is read back. -/
theorem Fits.reads {d : Nat} {v : Json} (h : v.Fits d) : Reads (value d) v := by
  induction h with
  | @null d =>
    intro rest _
    show (value d).run ('n' :: (['u', 'l', 'l'] ++ rest)) = _
    rw [value_flat (skipBlank_cons rfl _) (by decide) (by decide)]
    exact scalar_word rest rfl
  | @bool d b =>
    intro rest _
    cases b with
    | true =>
      show (value d).run ('t' :: (['r', 'u', 'e'] ++ rest)) = _
      rw [value_flat (skipBlank_cons rfl _) (by decide) (by decide)]
      exact scalar_word rest rfl
    | false =>
      show (value d).run ('f' :: (['a', 'l', 's', 'e'] ++ rest)) = _
      rw [value_flat (skipBlank_cons rfl _) (by decide) (by decide)]
      exact scalar_word rest rfl
  | @int d n hn =>
    intro rest hr
    obtain ⟨c, r, hc, hblank, -⟩ := (Fits.int (d := d) hn).begins
    obtain ⟨c', r', hc', hd⟩ := renderInt_cons n
    obtain ⟨rfl, rfl⟩ := List.cons.inj (hc.symm.trans hc')
    have hs := scalar_int hn hr
    show (value d).run (renderInt n ++ rest) = _
    rw [hc'] at hs ⊢
    rw [List.cons_append]
    exact (value_flat (skipBlank_cons hblank _) (by rintro rfl; cases hd)
      (by rintro rfl; cases hd)).trans hs
  | @str d s =>
    intro rest _
    show (value d).run ('"' :: _) = _
    rw [value_flat (skipBlank_cons rfl _) (by decide) (by decide)]
    exact scalar_string s rest
  | @arr d vs h ih =>
    intro rest _
    obtain ⟨cs, hcs, hrun⟩ := items_render (fun v hv => (h v hv).begins) ih rest
    rw [hcs]
    exact (value_bracket_iff (skipBlank_cons rfl cs)).2 ⟨vs, hrun, rfl⟩
  | @obj d ms h ih =>
    intro rest _
    obtain ⟨cs, hcs, hrun⟩ := objectRest_render (keepMember_takesUp ih []) rest
    obtain ⟨_, ht⟩ := Reader.eq_of_run hrun
    rw [hcs, value, valueOver, afterBlank_run _ rfl, Reader.run]
    dsimp only
    rw [if_neg (by decide), if_pos rfl, ht]
    simp only [Except.map, Taken.map, Taken.after, Taken.within, List.append_nil,
      List.reverse_reverse]

/-- What fits a depth fits a larger one. -/
theorem Fits.mono {d : Nat} {v : Json} (h : v.Fits d) : ∀ {d' : Nat}, d ≤ d' → v.Fits d' := by
  induction h with
  | null => exact fun _ => .null
  | bool b => exact fun _ => .bool b
  | int hn => exact fun _ => .int hn
  | str s => exact fun _ => .str s
  | arr h ih =>
    intro d' hd
    obtain ⟨e, rfl⟩ : ∃ e, d' = e + 1 := ⟨d' - 1, by omega⟩
    exact .arr fun v hv => ih v hv (Nat.le_of_succ_le_succ hd)
  | obj h ih =>
    intro d' hd
    obtain ⟨e, rfl⟩ : ∃ e, d' = e + 1 := ⟨d' - 1, by omega⟩
    exact .obj fun m hm => ih m hm (Nat.le_of_succ_le_succ hd)

/-- A whole text is the written form of one value. -/
theorem whole_ofList {α : Type} {r : Reader DecodeError α} {cs : List Char} {a : α}
    (h : r.run cs = .ok (a, [])) : whole r (.ofList cs) = .ok a := by
  obtain ⟨_, ht⟩ := Reader.eq_of_run h
  rw [whole, String.toList_ofList, ht]
  rfl

/-- The written form of a value is a text that reads as that value. -/
theorem read_render {v : Json} (h : v.Fits maxDepth) : read (.ofList v.render) = .ok v := by
  have hr := h.reads [] delimited_nil
  rw [List.append_nil] at hr
  exact whole_ofList hr

end TwoPhaseStore.Json
