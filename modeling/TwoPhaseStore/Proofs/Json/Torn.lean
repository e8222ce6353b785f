import TwoPhaseStore.Proofs.Json.Members

/-!
Texts that are cut off.  Of the written form of a value, what is left of it when its end is missing
is never malformed: the reader finds that it ends too early.  Only a number has no end of its own,
so a part of it may be a number as well, and then it is taken as a whole.

    Misses read w       the reader finds that every proper beginning of `w` ends too early
    Exhausts read w     or else it takes all of it

    v.Fits d → Exhausts (value d) v.render                                      (Fits.exhausts)

Readers one after another are cut off in the one or in the other (`Misses.append`).
-/

namespace TwoPhaseStore

open Text

namespace Text

/-! ## Places to cut a text -/

/-- Two texts in a row are cut inside the first or behind it. -/
theorem cut_cases {p t a b : List Char} (h : p ++ t = a ++ b) :
    (∃ as, as ≠ [] ∧ p ++ as = a) ∨ ∃ q, p = a ++ q ∧ q ++ t = b := by
  rcases List.append_eq_append_iff.1 h with ⟨as, ha, ht⟩ | ⟨q, hp, hb⟩
  · by_cases has : as = []
    · subst has
      exact .inr ⟨[], by simpa using ha.symm, by simpa using ht⟩
    · exact .inl ⟨as, has, ha.symm⟩
  · exact .inr ⟨q, hp, hb.symm⟩

/-- What is left of the digits of a number, if anything, are the digits of a number. -/
theorem toDigits_cut {n : Nat} {p t : List Char} (h : p ++ t = Nat.toDigits 10 n) (hp : p ≠ []) :
    ∃ m, m ≤ n ∧ (n ≠ 0 → m ≠ 0) ∧ p = Nat.toDigits 10 m := by
  induction n using Nat.strongRecOn generalizing t with
  | ind n ih =>
    rcases List.eq_nil_or_concat t with rfl | ⟨t', c, rfl⟩
    · rw [List.append_nil] at h
      exact ⟨n, Nat.le_refl n, id, h⟩
    · rw [List.concat_eq_append, ← List.append_assoc] at h
      rcases toDigits_cases (b := 10) (by decide) n with ⟨-, hd⟩ | ⟨hn, hd⟩
      · rw [hd, ← List.nil_append [n.digitChar]] at h
        obtain ⟨he, -⟩ := List.append_inj' h rfl
        exact absurd (List.append_eq_nil_iff.1 he).1 hp
      · rw [hd] at h
        obtain ⟨he, -⟩ := List.append_inj' h rfl
        obtain ⟨m, hm, h0, hpm⟩ := ih (n / 10) (by omega) he
        exact ⟨m, by omega, fun _ => h0 (by omega), hpm⟩

end Text

namespace Json

section
variable {α β : Type}

/-- Every proper beginning of the text is found to end too early. -/
def Misses (read : Reader DecodeError α) (w : List Char) : Prop :=
  ∀ p t, p ++ t = w → t ≠ [] → read.run p = .error .endOfText

/-- Every beginning of the text is found to end too early, or it is taken as a whole. -/
def Exhausts (read : Reader DecodeError α) (w : List Char) : Prop :=
  ∀ p t, p ++ t = w → read.run p = .error .endOfText ∨ ∃ a, read.run p = .ok (a, [])

theorem Misses.exhausts {read : Reader DecodeError α} {w : List Char} (h : Misses read w) {a : α}
    (hw : read.run w = .ok (a, [])) : Exhausts read w := by
  intro p t hp
  by_cases ht : t = []
  · subst ht
    rw [List.append_nil] at hp
    exact .inr ⟨a, hp ▸ hw⟩
  · exact .inl (h p t hp ht)

theorem misses_one {read : Reader DecodeError α} {c : Char}
    (hn : read.run [] = .error .endOfText) : Misses read [c] := by
  intro p t hp ht
  cases p with
  | nil => exact hn
  | cons d p => exact absurd (List.append_eq_nil_iff.1 (List.cons.inj hp).2).2 ht

theorem misses_cons {read : Reader DecodeError α} {read' : Reader DecodeError β} {c : Char}
    {w : List Char} (hn : read.run [] = .error .endOfText)
    (hc : ∀ p, read'.run p = .error .endOfText → read.run (c :: p) = .error .endOfText)
    (h : Misses read' w) : Misses read (c :: w) := by
  intro p t hp ht
  cases p with
  | nil => exact hn
  | cons d p =>
    obtain ⟨rfl, hw⟩ := List.cons.inj hp
    exact hc p (h p t hw ht)

theorem exhausts_cons {read : Reader DecodeError α} {read' : Reader DecodeError β} {f : β → α}
    {c : Char} {w : List Char} (hn : read.run [] = .error .endOfText)
    (hc : ∀ p, read.run (c :: p) = (read'.run p).map fun x => (f x.1, x.2))
    (h : Exhausts read' w) : Exhausts read (c :: w) := by
  intro p t hp
  cases p with
  | nil => exact .inl hn
  | cons d p =>
    obtain ⟨rfl, hw⟩ := List.cons.inj hp
    rw [hc]
    rcases h p t hw with h | ⟨b, h⟩
    · rw [h]
      exact .inl rfl
    · rw [h]
      exact .inr ⟨f b, rfl⟩

/-! ## Readers in a row -/

section
variable {a : Reader DecodeError α} {b : α → Reader DecodeError β} {w w' : List Char} {v : α}

theorem Misses.andThen (h : Misses a w) : Misses (a.andThen b) w :=
  fun p t hp ht => by
    rw [Reader.run_andThen, h p t hp ht]
    rfl

/-- Where the first reader takes all that there is, the second one has nothing. -/
theorem Exhausts.andThen (h : Exhausts a w) (hn : ∀ v, (b v).run [] = .error .endOfText) :
    Misses (a.andThen b) w := by
  intro p t hp _
  rcases h p t hp with h | ⟨v, h⟩
  · rw [Reader.run_andThen, h]
    rfl
  · rw [Reader.run_andThen, h]
    exact hn v

/-- A text that is cut behind its first part is cut in the part of the second reader. -/
theorem Misses.append (h : Misses (a.andThen b) w)
    (hr : ∀ rest, Delimited rest → a.run (w ++ rest) = .ok (v, rest)) (hd : Delimited w')
    (hb : Misses (b v) w') : Misses (a.andThen b) (w ++ w') := by
  intro p t hp ht
  rcases cut_cases hp with ⟨as, has, hw⟩ | ⟨q, rfl, hq⟩
  · exact h p as hw has
  · have hdq : Delimited q := by
      intro c r he
      subst he
      exact hd c (r ++ t) hq.symm
    rw [Reader.run_andThen, hr q hdq]
    exact hb q t hq ht

end

end

/-! ## Strings -/

theorem utf8Size_of_isHexDigit {c : Char} (h : isHexDigit c = true) : c.utf8Size = 1 := by
  have hle : c ≤ 'f' := by
    simp only [isHexDigit, isDigit, Bool.or_eq_true, Bool.and_eq_true, decide_eq_true_eq] at h
    rcases h with (⟨-, h⟩ | ⟨-, h⟩) | ⟨-, h⟩
    · exact Char.le_trans h (by decide)
    · exact h
    · exact Char.le_trans h (by decide)
  exact Char.utf8Size_eq_one_iff.2 (UInt32.le_trans hle (by decide))

theorem utf8ByteSize_hexDigits {ds : List Char} (h : ∀ c ∈ ds, isHexDigit c = true) :
    (String.ofList ds).utf8ByteSize = ds.length := by
  induction ds with
  | nil => rfl
  | cons d ds ih =>
    have hcons : String.ofList (d :: ds) = String.singleton d ++ String.ofList ds := by simp
    rw [hcons, String.utf8ByteSize_append, String.utf8ByteSize_singleton,
      utf8Size_of_isHexDigit (h d List.mem_cons_self),
      ih fun c hc => h c (List.mem_cons_of_mem _ hc), List.length_cons, Nat.add_comm]

theorem readHex4_misses {n : Nat} (hn : n < Nat.pow 16 4) : Misses readHex4 (hex4 n) := by
  intro p t hp ht
  have hl : p.length < 4 := by
    have hlen := congrArg List.length hp
    have hpos := List.length_pos_iff.2 ht
    rw [List.length_append, length_hex4 hn] at hlen
    omega
  have hs : (String.ofList p).utf8ByteSize < 4 := by
    rwa [utf8ByteSize_hexDigits fun c hc =>
      isHexDigit_of_mem_hex4 (hp ▸ List.mem_append_left t hc)]
  rw [Reader.run_eq_error, readHex4.eq_2 _ fun a b c d r he => by rw [he] at hl; simp at hl; omega,
    if_pos hs]

theorem codePointEscape_misses {n : Nat} (hn : n < Nat.pow 16 4) :
    Misses codePointEscape (hex4 n) := by
  intro p t hp ht
  have h := Reader.run_eq_error.1 (readHex4_misses hn p t hp ht)
  rw [Reader.run_eq_error, codePointEscape, h]
  rfl

/-- What is left of a character. -/
theorem stringPiece_misses (c : Char) : Misses stringPiece (escapeChar c) := by
  have hescape : ∀ w, Misses escape w → Misses stringPiece ('\\' :: w) := by
    intro w h
    refine misses_cons rfl (fun p hp => ?_) h
    rw [Reader.run_eq_error] at hp ⊢
    rw [stringPiece, if_neg (by decide), if_pos rfl, hp]
    rfl
  rcases escapeChar_cases c with ⟨d, he, -⟩ | ⟨hc, he⟩ | ⟨-, -, -, he⟩
  · rw [he]
    exact hescape _ (misses_one rfl)
  · rw [he]
    have hn : c.toNat < 32 := hc
    refine hescape _ (misses_cons rfl (fun p hp => ?_)
      (codePointEscape_misses (Nat.lt_trans hn (by decide))))
    rw [Reader.run_eq_error] at hp ⊢
    show (codePointEscape p).map (·.after 'u') = _
    rw [hp]
    rfl
  · rw [he]
    exact misses_one rfl

theorem pieces_error {ε α : Type} {piece : Reader ε (Piece α)} {cs : List Char} {e : ε}
    (h : piece.run cs = .error e) : Reader.run (pieces piece) cs = .error e := by
  rw [Reader.run_eq_error] at h ⊢
  rw [pieces, h]

theorem pieces_cons_error {ε α : Type} {piece : Reader ε (Piece α)} {cs r : List Char}
    {p : Piece α} {e : ε} (h : piece.run cs = .ok (p, r)) (hp : p.last = false)
    (hr : Reader.run (pieces piece) r = .error e) : Reader.run (pieces piece) cs = .error e := by
  obtain ⟨_, ht⟩ := Reader.eq_of_run h
  rw [Reader.run_eq_error] at hr ⊢
  rw [pieces, ht]
  dsimp only
  rw [if_neg (ne_true_of_eq_false hp), hr]

theorem stringRest_misses (cs : List Char) :
    Misses stringRest (cs.flatMap escapeChar ++ ['"']) := by
  induction cs with
  | nil => exact misses_one (pieces_error rfl)
  | cons c cs ih =>
    intro p t hp ht
    rw [List.flatMap_cons, List.append_assoc] at hp
    rcases cut_cases hp with ⟨as, has, hw⟩ | ⟨q, rfl, hq⟩
    · exact pieces_error (stringPiece_misses c p as hw has)
    · exact pieces_cons_error (stringPiece_escapeChar c q) rfl (ih q t hq ht)

/-- A string is cut off behind its opening quote, if not at once. -/
theorem misses_renderString {α : Type} {read : Reader DecodeError α} (s : String)
    (hn : read.run [] = .error .endOfText)
    (hc : ∀ p, stringRest.run p = .error .endOfText → read.run ('"' :: p) = .error .endOfText) :
    Misses read (renderString s) := by
  have hcons : renderString s = '"' :: (s.toList.flatMap escapeChar ++ ['"']) := rfl
  rw [hcons]
  exact misses_cons hn hc (stringRest_misses s.toList)

theorem scalar_misses_string (s : String) : Misses scalar (renderString s) := by
  refine misses_renderString s rfl fun p hp => ?_
  rw [Reader.run_eq_error] at hp ⊢
  rw [scalar, if_pos rfl, hp]
  rfl

theorem memberName_misses (name : String) : Misses memberName (renderString name) := by
  refine misses_renderString name rfl fun p hp => ?_
  rw [memberName, afterBlank_run _ rfl, Reader.run_eq_error]
  rw [Reader.run_eq_error] at hp
  dsimp only
  rw [if_pos rfl, hp]
  rfl

/-! ## Words and numbers -/

theorem word_cut {ε α : Type} [ReadError ε] (a : α) {ws p t : List Char} (h : p ++ t = ws)
    (ht : t ≠ []) : word (ε := ε) a ws p = .error ReadError.ended := by
  induction ws generalizing p with
  | nil => exact absurd (List.append_eq_nil_iff.1 h).2 ht
  | cons w ws ih =>
    cases p with
    | nil => rfl
    | cons c p =>
      obtain ⟨rfl, hw⟩ := List.cons.inj h
      rw [word, if_pos rfl, ih hw]
      rfl

theorem scalar_misses_word {c : Char} {ws : List Char} {v : Json}
    (hs : ∀ cs, scalar (c :: cs) = (word v ws cs).map (Scanned.after c)) :
    Misses scalar (c :: ws) := by
  intro p t hp ht
  cases p with
  | nil => rfl
  | cons d p =>
    obtain ⟨rfl, hw⟩ := List.cons.inj hp
    rw [Reader.run_eq_error, hs, word_cut v hw ht]
    rfl

/-- What is left of a whole number is nothing, a minus, or a whole number. -/
theorem renderInt_cut {n : Int} (hn : Whole n) {p t : List Char} (h : p ++ t = renderInt n) :
    p = [] ∨ p = ['-'] ∨ ∃ m, Whole m ∧ p = renderInt m := by
  obtain ⟨hl, hu⟩ := hn
  unfold renderInt at h
  cases p with
  | nil => exact .inl rfl
  | cons c p =>
    by_cases hneg : n < 0
    · rw [if_pos hneg] at h
      obtain ⟨rfl, hw⟩ := List.cons.inj h
      by_cases hp : p = []
      · subst hp
        exact .inr (.inl rfl)
      · obtain ⟨m, hm, h0, rfl⟩ := toDigits_cut hw hp
        refine .inr (.inr ⟨-(m : Int), ⟨by omega, by omega⟩, ?_⟩)
        have hm0 : m ≠ 0 := h0 (by omega)
        rw [renderInt, if_pos (by omega), Int.natAbs_neg, Int.natAbs_natCast]
    · rw [if_neg hneg] at h
      obtain ⟨m, hm, -, hc⟩ := toDigits_cut h (List.cons_ne_nil c p)
      refine .inr (.inr ⟨m, ⟨by omega, by omega⟩, ?_⟩)
      rw [renderInt, if_neg (by omega), Int.natAbs_natCast, hc]

theorem scalar_exhausts_int {n : Int} (hn : Whole n) : Exhausts scalar (renderInt n) := by
  intro p t hp
  rcases renderInt_cut hn hp with rfl | rfl | ⟨m, hm, rfl⟩
  · exact .inl rfl
  · exact .inl rfl
  · have hs := scalar_int hm delimited_nil
    rw [List.append_nil] at hs
    exact .inr ⟨_, hs⟩

/-- What reads as a scalar does so at whatever depth. -/
theorem value_exhausts_scalar (d : Nat) {v : Json} {c : Char} {w : List Char}
    (hw : v.render = c :: w) (hb : isBlank c = false) (ha : c ≠ '[') (ho : c ≠ '\x7b')
    (h : Exhausts scalar v.render) : Exhausts (value d) v.render := by
  intro p t hp
  cases p with
  | nil => exact .inl (value_nil rfl)
  | cons c' p =>
    obtain rfl : c' = c := (List.cons.inj (hp.trans hw)).1
    rw [value_flat (skipBlank_cons hb p) ha ho]
    exact h _ t hp

/-! ## Arrays -/

section
variable {item : Reader DecodeError Json} {vs : List Json}

theorem moreItems_nil : Reader.run (moreItems item) [] = .error .endOfText := by
  rw [Reader.run, moreItems]
  rfl

theorem someItems_misses {v : Json} (h : Exhausts item v.render) (hr : Reads item v)
    (hm : Misses (moreItems item) (renderItems vs ++ [']'])) :
    Misses (someItems item) (v.render ++ (renderItems vs ++ [']'])) := by
  have hmap : ∀ (v : Json) (p : List Char), Reader.run (moreItems item) p = .error .endOfText →
      Reader.run (fun cs => (moreItems item cs).map fun t => t.map (v :: ·)) p =
        .error .endOfText := by
    intro v p hp
    rw [Reader.run_eq_error] at hp ⊢
    rw [hp]
    rfl
  refine Misses.append (h.andThen fun v => hmap v [] moreItems_nil) hr (delimited_items vs [])
    fun p t hp ht => hmap v p (hm p t hp ht)

theorem moreItems_misses (h : ∀ v ∈ vs, Exhausts item v.render) (hr : ∀ v ∈ vs, Reads item v) :
    Misses (moreItems item) (renderItems vs ++ [']']) := by
  induction vs with
  | nil => exact misses_one moreItems_nil
  | cons v vs ih =>
    have hcons : renderItems (v :: vs) ++ [']'] =
        ',' :: (v.render ++ (renderItems vs ++ [']'])) := by simp [renderItems]
    rw [hcons]
    refine misses_cons moreItems_nil (fun p hp => (moreItems_comma p).trans hp) ?_
    have htail : Misses (moreItems item) (renderItems vs ++ [']']) :=
      ih (fun v hv => h v (List.mem_cons_of_mem _ hv)) fun v hv => hr v (List.mem_cons_of_mem _ hv)
    exact someItems_misses (h v List.mem_cons_self) (hr v List.mem_cons_self) htail

theorem items_misses (hb : ∀ v ∈ vs, Begins v) (h : ∀ v ∈ vs, Exhausts item v.render)
    (hr : ∀ v ∈ vs, Reads item v) :
    ∃ w, (arr vs).render = '[' :: w ∧ Misses (items item) w := by
  cases vs with
  | nil => exact ⟨[']'], rfl, misses_one rfl⟩
  | cons v vs =>
    refine ⟨v.render ++ (renderItems vs ++ [']']), by simp [render], ?_⟩
    have hm := someItems_misses (h v List.mem_cons_self) (hr v List.mem_cons_self)
      (moreItems_misses (fun v hv => h v (List.mem_cons_of_mem _ hv))
        fun v hv => hr v (List.mem_cons_of_mem _ hv))
    obtain ⟨c, r, hc, hblank, hne⟩ := hb v List.mem_cons_self
    intro p t hp ht
    cases p with
    | nil => rfl
    | cons c' p =>
      obtain rfl : c' = c := by
        rw [hc] at hp
        exact (List.cons.inj hp).1
      rw [items_open (skipBlank_cons hblank p) hne]
      exact hm _ t hp ht

end

/-! ## Objects -/

section
variable {σ : Type} {member : MemberReader σ} {known known' : σ}

/-- One after another the members are taken up, each from its colon on, and none is found malformed
where its value is cut off. -/
inductive Tears (member : MemberReader σ) : σ → List (String × Json) → Prop where
  | nil (known : σ) : Tears member known []
  | cons {known known' : σ} {name : String} {v : Json} {ms : List (String × Json)}
    (h : ∀ rest, Delimited rest →
      (member known name).run (':' :: (v.render ++ rest)) = .ok (known', rest))
    (ht : Exhausts (member known name) (':' :: v.render)) (hs : Tears member known' ms) :
    Tears member known ((name, v) :: ms)

theorem delimited_members (ms : List (String × Json)) (rest : List Char) :
    Delimited (renderMembers ms ++ '\x7d' :: rest) := by
  cases ms with
  | nil => exact delimited_cons (.inr (.inr rfl)) rest
  | cons m ms => exact delimited_cons (.inl rfl) _

theorem members_misses {name : String} {v : Json} {w : List Char}
    (h : ∀ rest, Delimited rest →
      (member known name).run (':' :: (v.render ++ rest)) = .ok (known', rest))
    (ht : Exhausts (member known name) (':' :: v.render)) (hd : Delimited w)
    (hw : Misses (moreMembers member known') w) :
    Misses (members member known) (renderMember (name, v) ++ w) := by
  have hcolon : Delimited (':' :: v.render ++ w) := by
    rintro c r he
    obtain ⟨rfl, -⟩ := List.cons.inj he
    exact ⟨rfl, by decide, by decide, by decide⟩
  have hvalue : Misses ((member known name).andThen (moreMembers member)) (':' :: v.render ++ w) :=
    (ht.andThen fun _ => rfl).append h hd hw
  have hname : Misses (memberName.andThen fun name =>
      (member known name).andThen (moreMembers member))
      (renderString name ++ (':' :: v.render ++ w)) :=
    (memberName_misses name).andThen.append (fun rest _ => memberName_render name rest) hcolon
      hvalue
  intro p t hp hne
  rw [members_run]
  refine hname p t (hp.trans ?_) hne
  rw [renderMember, List.append_assoc]

theorem moreMembers_misses {ms : List (String × Json)} (h : Tears member known ms) :
    Misses (moreMembers member known) (renderMembers ms ++ ['\x7d']) := by
  induction h with
  | nil known => exact misses_one rfl
  | @cons known known' name v ms h ht hs ih =>
    have hcons : renderMembers ((name, v) :: ms) ++ ['\x7d'] =
        ',' :: (renderMember (name, v) ++ (renderMembers ms ++ ['\x7d'])) := by
      simp [renderMembers]
    rw [hcons]
    refine misses_cons rfl (fun p hp => (moreMembers_comma p).trans hp) ?_
    exact members_misses h ht (delimited_members ms []) ih

theorem objectRest_misses {ms : List (String × Json)} (h : Tears member known ms) :
    ∃ w, (obj ms).render = '\x7b' :: w ∧ Misses (objectRest member known) w := by
  cases h with
  | nil => exact ⟨['\x7d'], rfl, misses_one rfl⟩
  | @cons _ known' name v ms h ht hs =>
    refine ⟨renderMember (name, v) ++ (renderMembers ms ++ ['\x7d']), by simp [render], ?_⟩
    have hm := members_misses h ht (delimited_members ms []) (moreMembers_misses hs)
    intro p t hp hne
    cases p with
    | nil => rfl
    | cons c p =>
      obtain rfl : c = '"' := (List.cons.inj hp).1
      rw [objectRest, afterBlank_run _ rfl]
      exact hm _ t hp hne

end

theorem keepMember_tears {read : Reader DecodeError Json} {ms : List (String × Json)}
    (hr : ∀ m ∈ ms, Reads read m.2) (ht : ∀ m ∈ ms, Exhausts read m.2.render)
    (known : List (String × Json)) : Tears (keepMember read) known ms := by
  induction ms generalizing known with
  | nil => exact .nil known
  | cons m ms ih =>
    refine .cons (fun rest hd => keepMember_render (hr m List.mem_cons_self) known m.1 hd)
      (exhausts_cons (f := fun v => (m.1, v) :: known) rfl (keepMember_colon read known m.1)
        (ht m List.mem_cons_self)) ?_
    exact ih (fun m hm => hr m (List.mem_cons_of_mem _ hm))
      (fun m hm => ht m (List.mem_cons_of_mem _ hm)) _

/-! ## Values -/

/-- Of a value that is written, no part is malformed. -/
theorem Fits.exhausts {d : Nat} {v : Json} (h : v.Fits d) : Exhausts (value d) v.render := by
  have hself : ∀ {d : Nat} {v : Json}, v.Fits d → (value d).run v.render = .ok (v, []) := by
    intro d v h
    have hr := h.reads [] delimited_nil
    rwa [List.append_nil] at hr
  induction h with
  | @null d =>
    have hs : Misses scalar ['n', 'u', 'l', 'l'] := scalar_misses_word fun _ => rfl
    exact value_exhausts_scalar d rfl rfl (by decide) (by decide) (hs.exhausts (a := .null) rfl)
  | @bool d b =>
    cases b with
    | true =>
      have hs : Misses scalar ['t', 'r', 'u', 'e'] := scalar_misses_word fun _ => rfl
      exact value_exhausts_scalar d rfl rfl (by decide) (by decide)
        (hs.exhausts (a := .bool true) rfl)
    | false =>
      have hs : Misses scalar ['f', 'a', 'l', 's', 'e'] := scalar_misses_word fun _ => rfl
      exact value_exhausts_scalar d rfl rfl (by decide) (by decide)
        (hs.exhausts (a := .bool false) rfl)
  | @int d n hn =>
    obtain ⟨c, r, hc, hblank, -⟩ := (Fits.int (d := d) hn).begins
    obtain ⟨c', r', hc', hd⟩ := renderInt_cons n
    obtain ⟨rfl, rfl⟩ := List.cons.inj (hc.symm.trans hc')
    exact value_exhausts_scalar d hc hblank (by rintro rfl; cases hd) (by rintro rfl; cases hd)
      (scalar_exhausts_int hn)
  | @str d s =>
    have hs := scalar_string s []
    rw [List.append_nil] at hs
    exact value_exhausts_scalar d rfl rfl (by decide) (by decide)
      ((scalar_misses_string s).exhausts hs)
  | @arr d vs h ih =>
    obtain ⟨w, hw, hm⟩ := items_misses (fun v hv => (h v hv).begins) ih fun v hv => (h v hv).reads
    have hv := hself (.arr h)
    rw [hw] at hv ⊢
    refine (misses_cons rfl (fun p hp => ?_) hm).exhausts hv
    rw [Reader.run_eq_error] at hp
    rw [value, valueOver, afterBlank_run _ rfl, Reader.run_eq_error]
    dsimp only
    rw [if_pos rfl, hp]
    rfl
  | @obj d ms h ih =>
    obtain ⟨w, hw, hm⟩ := objectRest_misses
      (keepMember_tears (fun m hm => (h m hm).reads) ih [])
    have hv := hself (.obj h)
    rw [hw] at hv ⊢
    refine (misses_cons rfl (fun p hp => ?_) hm).exhausts hv
    rw [Reader.run_eq_error] at hp
    rw [value, valueOver, afterBlank_run _ rfl, Reader.run_eq_error]
    dsimp only
    rw [if_neg (by decide), if_pos rfl, hp]
    rfl

end Json

end TwoPhaseStore
