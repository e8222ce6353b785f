import Mathlib.Data.List.Basic
import TwoPhaseStore.Toml.Entries

/-!
The entries of a document and the order they are in.  Each line adds to one entry of the document
(`Line.top`).  The entries are the ones that lines add to, and they stand in the order of the lines
that open them: the header of its own for a table that has one, else the first line that adds to
the entry (`place`):

    Entries.ofLines ls = some es →
      es.Pairwise fun a b => place ls a.1 < place ls b.1                          (ordered_ofLines)

A line puts a new entry at the end or changes one in place (`Adds`).  The one exception is the
header of a table that longer headers have implied before: that table moves to the end.
-/

namespace TwoPhaseStore.Toml

/-! ## Lines and places -/

/-- The entry of the document that a line adds to, where the table `here` is open. -/
def Line.top (here : List String) : Line → String
  | .bind key _ => (here ++ key.path).headD key.name
  | .table key => key.path.headD key.name
  | .row key => key.path.headD key.name

/-- The table that is open after a line. -/
def Line.opens (here : List String) : Line → List String
  | .bind _ _ => here
  | .table key => key.path ++ [key.name]
  | .row key => key.path ++ [key.name]

/-- The entries that the lines add to, line by line. -/
def tops : List String → List Line → List String
  | _, [] => []
  | here, l :: ls => l.top here :: tops (l.opens here) ls

/-- Whether a line is the header of the entry `name` itself. -/
def Line.heads (name : String) : Line → Bool
  | .table key => key.path = [] ∧ key.name = name
  | _ => false

/-- The number of the line that opens an entry. -/
def place (ls : List Line) (name : String) : Nat :=
  if ls.any (·.heads name) then ls.findIdx (·.heads name) else (tops [] ls).idxOf name

theorem Line.top_of_heads {name : String} {l : Line} (h : l.heads name = true)
    (here : List String) : l.top here = name := by
  cases l with
  | table key =>
    obtain ⟨hp, hn⟩ := of_decide_eq_true h
    rw [top, hp, hn]
    rfl
  | _ => cases h

theorem tops_append (here : List String) (ls ls' : List Line) :
    tops here (ls ++ ls') = tops here ls ++ tops (ls.foldl Line.opens here) ls' := by
  induction ls generalizing here with
  | nil => rfl
  | cons l ls ih => exact congrArg (l.top here :: ·) (ih _)

theorem length_tops (here : List String) (ls : List Line) : (tops here ls).length = ls.length := by
  induction ls generalizing here with
  | nil => rfl
  | cons l ls ih => exact congrArg Nat.succ (ih _)

/-- The header of an entry adds to it. -/
theorem mem_tops_of_heads {name : String} {ls : List Line}
    (h : ls.any (·.heads name) = true) (here : List String) : name ∈ tops here ls := by
  induction ls generalizing here with
  | nil => cases h
  | cons l ls ih =>
    rw [List.any_cons, Bool.or_eq_true] at h
    rcases h with h | h
    · rw [tops, Line.top_of_heads h]
      exact List.mem_cons_self
    · exact List.mem_cons_of_mem _ (ih h _)

section
variable {ls : List Line} {l : Line} {name : String}

/-- An entry stays where it is unless it gets a header of its own. -/
theorem place_of_mem (hm : name ∈ tops [] ls) (hl : ls.any (·.heads name) = true ∨
    l.heads name = false) : place (ls ++ [l]) name = place ls name := by
  unfold place
  rw [List.any_append, tops_append, List.idxOf_append_of_mem hm, List.findIdx_append]
  by_cases hh : ls.any (·.heads name) = true
  · have hlt : ls.findIdx (·.heads name) < ls.length :=
      List.findIdx_lt_length.2 (List.any_eq_true.1 hh)
    rw [if_pos (by rw [hh]; rfl), if_pos hlt, if_pos hh]
  · have hn : l.heads name = false := hl.resolve_left hh
    rw [if_neg (by simp [Bool.eq_false_iff.2 hh, hn]), if_neg hh]

theorem place_lt (hm : name ∈ tops [] ls) : place ls name < ls.length := by
  unfold place
  split
  · next hh => exact List.findIdx_lt_length.2 (List.any_eq_true.1 hh)
  · rw [← length_tops [] ls]
    exact List.idxOf_lt_length_iff.2 hm

/-- A table that gets a header of its own is opened by it. -/
theorem place_of_heads (hn : ls.any (·.heads name) = false) (hl : l.heads name = true) :
    place (ls ++ [l]) name = ls.length := by
  have hni : ¬ ls.findIdx (·.heads name) < ls.length := fun h => by
    rw [List.any_eq_true.2 (List.findIdx_lt_length.1 h)] at hn
    cases hn
  unfold place
  rw [List.any_append, if_pos (by simp [hl]), List.findIdx_append, if_neg hni]
  simp [List.findIdx_cons, hl]

/-- An entry that is new is opened by the line that adds to it. -/
theorem place_of_not_mem (hm : name ∉ tops [] ls)
    (ht : l.top (ls.foldl Line.opens []) = name) : place (ls ++ [l]) name = ls.length := by
  have hn : ls.any (·.heads name) = false :=
    Bool.eq_false_iff.2 fun h => hm (mem_tops_of_heads h [])
  by_cases hl : l.heads name = true
  · exact place_of_heads hn hl
  · unfold place
    rw [List.any_append, if_neg (by simp [hn, hl]), tops_append,
      List.idxOf_append_of_notMem hm, length_tops]
    simp [tops, ht]

theorem any_heads_append (hls : ls.any (·.heads name) = false) (hl : l.heads name = false) :
    (ls ++ [l]).any (·.heads name) = false := by
  simp [hls, hl]

end

/-! ## Entries that are added to -/

namespace Entries

/-- Names stand where they stood. -/
theorem names_replace (name : String) (v : Toml) (es : Entries) :
    (replace name v es).map (·.1) = es.map (·.1) := by
  unfold replace
  rw [List.map_map]
  refine List.map_congr_left fun e _ => ?_
  show (if e.1 = name then (name, v) else e).1 = e.1
  split
  · next h => exact h.symm
  · rfl

theorem mem_replace {name : String} {v : Toml} {es : Entries} {e : String × Toml}
    (h : e ∈ replace name v es) : e ∈ es ∨ e = (name, v) := by
  obtain ⟨e', he, rfl⟩ := List.mem_map.1 h
  split
  · exact .inr rfl
  · exact .inl he

theorem mem_of_lookup {name : String} {v : Toml} {es : Entries} (h : es.lookup name = some v) :
    (name, v) ∈ es := by
  obtain ⟨l₁, l₂, rfl, -⟩ := List.lookup_eq_some_iff.1 h
  exact List.mem_append_right _ List.mem_cons_self

theorem lookup_eq_none {name : String} {es : Entries} :
    es.lookup name = none ↔ name ∉ es.map (·.1) := by
  rw [List.lookup_eq_none_iff, List.mem_map]
  simp only [bne_iff_ne, ne_eq, not_exists, not_and]
  exact ⟨fun h e he hn => h e he hn.symm, fun h e he hn => h e he hn.symm⟩

end Entries

/-- A table, or an array of tables, with other entries. -/
inductive Regrown : Toml → Toml → Prop where
  | table (origin : Origin) (t t' : Entries) : Regrown (.table origin t) (.table origin t')
  | tables (t t' : Entries) (e e' : List Entries) : Regrown (.tables t e) (.tables t' e')

/-- The entry `top` is new and comes last, or it stays in its place and has grown. -/
inductive Adds (top : String) (New : Toml → Prop) (es : Entries) : Entries → Prop where
  | appends {v : Toml} (hn : es.lookup top = none) (hv : New v) : Adds top New es (es ++ [(top, v)])
  | changes {v v' : Toml} (hs : es.lookup top = some v) (hv : Regrown v v') :
    Adds top New es (Entries.replace top v' es)

section
variable {New : Toml → Prop} {key : String} {v : Toml} {path : List String} {es es' : Entries}

/-- A dotted key adds its value, or a table with it. -/
theorem adds_bind (hv : path = [] → New v) (ht : path ≠ [] → ∀ t, New (.table .dotted t))
    (h : Entries.bind key v path es = some es') : Adds (path.headD key) New es es' := by
  cases path with
  | nil =>
    rw [Entries.bind] at h
    split at h
    · next hn =>
      cases h
      exact .appends hn (hv rfl)
    · cases h
  | cons name path =>
    rw [Entries.bind] at h
    split at h
    · next hn =>
      obtain ⟨t, -, rfl⟩ := Option.map_eq_some_iff.1 h
      exact .appends hn (ht (List.cons_ne_nil _ _) t)
    · next origin t hs =>
      split at h
      · cases h
      · obtain ⟨t', -, rfl⟩ := Option.map_eq_some_iff.1 h
        exact .changes hs (.table origin t t')
    · next t earlier hs =>
      split at h
      · cases h
      · obtain ⟨t', -, rfl⟩ := Option.map_eq_some_iff.1 h
        exact .changes hs (.tables t t' earlier earlier)
    · cases h

/-- What is done within a table changes the entry that the table is in. -/
theorem adds_within {f : Entries → Option Entries}
    (hf : path = [] → f es = some es' → Adds key New es es')
    (ht : path ≠ [] → ∀ t, New (.table .implied t)) (h : Entries.within f path es = some es') :
    Adds (path.headD key) New es es' := by
  cases path with
  | nil => exact hf rfl h
  | cons name path =>
    rw [Entries.within] at h
    split at h
    · next hn =>
      obtain ⟨t, -, rfl⟩ := Option.map_eq_some_iff.1 h
      exact .appends hn (ht (List.cons_ne_nil _ _) t)
    · next origin t hs =>
      obtain ⟨t', -, rfl⟩ := Option.map_eq_some_iff.1 h
      exact .changes hs (.table origin t t')
    · next t earlier hs =>
      obtain ⟨t', -, rfl⟩ := Option.map_eq_some_iff.1 h
      exact .changes hs (.tables t t' earlier earlier)
    · cases h

theorem adds_openRow (hr : New (.tables [] [])) (h : Entries.openRow key es = some es') :
    Adds key New es es' := by
  unfold Entries.openRow at h
  split at h
  · next hn =>
    cases h
    exact .appends hn hr
  · next last earlier hs =>
    cases h
    exact .changes hs (.tables last [] earlier (last :: earlier))
  · cases h

/-- A table is opened where none was, or where it was only implied, and stands at the end. -/
theorem openTable_cases (h : Entries.openTable key es = some es') :
    ∃ t, (es.lookup key = none ∨ ∃ t, es.lookup key = some (.table .implied t)) ∧
      es' = es.filter (fun e => e.1 ≠ key) ++ [(key, .table .written t)] := by
  unfold Entries.openTable at h
  split at h
  · next hn =>
    cases h
    have hne : ∀ e ∈ es, e.1 ≠ key := fun e he hkey =>
      Entries.lookup_eq_none.1 hn (hkey ▸ List.mem_map_of_mem he)
    refine ⟨[], .inl hn, ?_⟩
    rw [List.filter_eq_self.2 fun e he => decide_eq_true (hne e he)]
  · next t hs =>
    cases h
    exact ⟨t, .inr ⟨t, hs⟩, rfl⟩
  · cases h

end

/-- What a line may put at the top of a document: the value that it binds, or tables. -/
inductive Line.Puts : Line → Toml → Prop where
  | value (key : DottedKey) (v : Toml) : Line.Puts (.bind key v) v
  | table (l : Line) (origin : Origin) (t : Entries) : Line.Puts l (.table origin t)
  | tables (l : Line) (t : Entries) (earlier : List Entries) : Line.Puts l (.tables t earlier)

/-- A line adds to the entry it is about; or it is the header of a table that was not there, or only
implied, and opens that at the end. -/
theorem Progress.add_cases {p p' : Progress} {l : Line} (h : p.add l = some p') :
    p'.here = l.opens p.here ∧ ((∀ name, l.heads name = false) ∧
        Adds (l.top p.here) l.Puts p.entries p'.entries ∨
      ∃ name t, l = .table ⟨[], name⟩ ∧ (p.entries.lookup name = none ∨
          ∃ t, p.entries.lookup name = some (.table .implied t)) ∧
        p'.entries = p.entries.filter (fun e => e.1 ≠ name) ++ [(name, .table .written t)]) := by
  cases l with
  | bind key v =>
    obtain ⟨es, hes, rfl⟩ := Option.map_eq_some_iff.1 h
    refine ⟨rfl, .inl ⟨fun _ => rfl, ?_⟩⟩
    show Adds ((p.here ++ key.path).headD key.name) _ _ _
    cases hh : p.here with
    | nil =>
      rw [hh] at hes
      exact adds_bind (fun _ => .value key v) (fun _ t => .table _ _ t) hes
    | cons name here =>
      rw [hh] at hes
      have hw : Adds ((name :: here).headD key.name) (Line.bind key v).Puts p.entries es :=
        adds_within nofun (fun _ t => .table _ _ t) hes
      exact hw
  | table key =>
    obtain ⟨es, hes, rfl⟩ := Option.map_eq_some_iff.1 h
    refine ⟨rfl, ?_⟩
    obtain ⟨path, name⟩ := key
    cases path with
    | nil =>
      obtain ⟨t, hlook, he⟩ := openTable_cases hes
      exact .inr ⟨name, t, rfl, hlook, he⟩
    | cons first path =>
      refine .inl ⟨fun _ => by simp [Line.heads], ?_⟩
      have hw : Adds ((first :: path).headD name) (Line.table ⟨first :: path, name⟩).Puts
          p.entries es := adds_within nofun (fun _ t => .table _ _ t) hes
      exact hw
  | row key =>
    obtain ⟨es, hes, rfl⟩ := Option.map_eq_some_iff.1 h
    refine ⟨rfl, .inl ⟨fun _ => rfl, ?_⟩⟩
    exact adds_within (fun _ hr => adds_openRow (.tables _ _ _) hr)
      (fun _ t => .table _ _ t) hes

/-! ## The order of a document -/

/-- What the lines so far have come to. -/
structure Follows (ls : List Line) (p : Progress) : Prop where
  here : p.here = ls.foldl Line.opens []
  names : ∀ name, name ∈ p.entries.map (·.1) ↔ name ∈ tops [] ls
  ordered : p.entries.Pairwise fun a b => place ls a.1 < place ls b.1
  /-- A table that is only implied has no header yet. -/
  implied : ∀ name t, (name, Toml.table .implied t) ∈ p.entries → ls.any (·.heads name) = false
  values : ∀ e ∈ p.entries, ∃ l ∈ ls, l.Puts e.2

theorem follows_nil : Follows [] ⟨[], []⟩ :=
  ⟨rfl, fun _ => Iff.rfl, List.Pairwise.nil, nofun, nofun⟩

section
variable {ls : List Line} {l : Line} {p p' : Progress} (h : Follows ls p)

include h

theorem Follows.mem_tops {e : String × Toml} (he : e ∈ p.entries) : e.1 ∈ tops [] ls :=
  (h.names e.1).1 (List.mem_map_of_mem he)

/-- Entries that a line does not open keep their places, and the one that it opens comes last. -/
theorem Follows.ordered_append {es : Entries} {name : String} {v : Toml}
    (hes : es.Sublist p.entries) (hk : ∀ e ∈ es, ls.any (·.heads e.1) = true ∨ l.heads e.1 = false)
    (hp : place (ls ++ [l]) name = ls.length) :
    (es ++ [(name, v)]).Pairwise fun a b => place (ls ++ [l]) a.1 < place (ls ++ [l]) b.1 := by
  have hplace : ∀ e ∈ es, place (ls ++ [l]) e.1 = place ls e.1 := fun e he =>
    place_of_mem (h.mem_tops (hes.subset he)) (hk e he)
  refine List.pairwise_append.2 ⟨?_, List.pairwise_singleton _ _, fun a ha b hb => ?_⟩
  · refine (h.ordered.sublist hes).imp_of_mem fun {a b} ha hb hab => ?_
    rw [hplace a ha, hplace b hb]
    exact hab
  · rw [List.mem_singleton.1 hb, hp, hplace a ha]
    exact place_lt (h.mem_tops (hes.subset ha))

theorem Follows.values_append {es : Entries} {name : String} {v : Toml}
    (hes : ∀ e ∈ es, e ∈ p.entries) (hv : l.Puts v) :
    ∀ e ∈ es ++ [(name, v)], ∃ l' ∈ ls ++ [l], l'.Puts e.2 := by
  intro e he
  rcases List.mem_append.1 he with he | he
  · obtain ⟨l', hl, hp⟩ := h.values e (hes e he)
    exact ⟨l', List.mem_append_left _ hl, hp⟩
  · rw [List.mem_singleton.1 he]
    exact ⟨l, List.mem_append_right _ List.mem_cons_self, hv⟩

theorem Follows.here_add (hhere : p'.here = l.opens p.here) :
    p'.here = (ls ++ [l]).foldl Line.opens [] := by
  rw [List.foldl_append, ← h.here, hhere]
  rfl

theorem Follows.tops_add : tops [] (ls ++ [l]) = tops [] ls ++ [l.top p.here] := by
  rw [tops_append, ← h.here]
  rfl

/-- A line that is not the header of an entry may open a new one at the end. -/
theorem Follows.appends (hl : ∀ name, l.heads name = false) {v : Toml}
    (hn : p.entries.lookup (l.top p.here) = none) (hv : l.Puts v) :
    Follows (ls ++ [l]) ⟨p.entries ++ [(l.top p.here, v)], l.opens p.here⟩ := by
  have hm : l.top p.here ∉ tops [] ls := fun hm =>
    Entries.lookup_eq_none.1 hn ((h.names _).2 hm)
  refine ⟨h.here_add rfl, fun name => ?_, ?_, fun name t ht => ?_,
    h.values_append (fun _ he => he) hv⟩
  · rw [h.tops_add, List.map_append, List.mem_append, List.mem_append, h.names]
    rfl
  · exact h.ordered_append (List.Sublist.refl _) (fun e _ => .inr (hl e.1))
      (place_of_not_mem hm (by rw [h.here]))
  · rcases List.mem_append.1 ht with ht | ht
    · exact any_heads_append (h.implied name t ht) (hl name)
    · obtain ⟨rfl, -⟩ := Prod.mk.inj (List.mem_singleton.1 ht)
      exact any_heads_append (Bool.eq_false_iff.2 fun hc => hm (mem_tops_of_heads hc [])) (hl _)

/-- A line that is not the header of an entry may add to one, which stays in its place. -/
theorem Follows.changes (hl : ∀ name, l.heads name = false) {v v' : Toml}
    (hs : p.entries.lookup (l.top p.here) = some v) (hg : Regrown v v') :
    Follows (ls ++ [l]) ⟨Entries.replace (l.top p.here) v' p.entries, l.opens p.here⟩ := by
  have hn : (Entries.replace (l.top p.here) v' p.entries).map (·.1) = p.entries.map (·.1) :=
    Entries.names_replace _ _ _
  refine ⟨h.here_add rfl, fun name => ?_, ?_, fun name t ht => ?_, fun e he => ?_⟩
  · have hm : l.top p.here ∈ tops [] ls := h.mem_tops (Entries.mem_of_lookup hs)
    rw [hn, h.tops_add, List.mem_append, h.names, List.mem_singleton]
    exact ⟨.inl, fun ho => ho.elim id fun he => he ▸ hm⟩
  · have hp : (p.entries.map (·.1)).Pairwise
        fun a b => place (ls ++ [l]) a < place (ls ++ [l]) b := by
      refine List.pairwise_map.2 (h.ordered.imp_of_mem fun {a b} ha hb hab => ?_)
      rw [place_of_mem (h.mem_tops ha) (.inr (hl _)), place_of_mem (h.mem_tops hb) (.inr (hl _))]
      exact hab
    rw [← hn, List.pairwise_map] at hp
    exact hp
  · rcases Entries.mem_replace ht with ht | ht
    · exact any_heads_append (h.implied name t ht) (hl name)
    · obtain ⟨rfl, rfl⟩ := Prod.mk.inj ht
      cases hg with
      | table origin t₀ => exact any_heads_append (h.implied _ _ (Entries.mem_of_lookup hs)) (hl _)
  · rcases Entries.mem_replace he with he | rfl
    · obtain ⟨l', hl', hp⟩ := h.values e he
      exact ⟨l', List.mem_append_left _ hl', hp⟩
    · refine ⟨l, List.mem_append_right _ List.mem_cons_self, ?_⟩
      cases hg with
      | table origin t t' => exact .table l origin t'
      | tables t t' e e' => exact .tables l t' e'

/-- A line that is not the header of an entry adds to one, new or not. -/
theorem Follows.adds (hl : ∀ name, l.heads name = false) (hhere : p'.here = l.opens p.here)
    (ha : Adds (l.top p.here) l.Puts p.entries p'.entries) : Follows (ls ++ [l]) p' := by
  obtain ⟨entries, here⟩ := p'
  subst hhere
  cases ha with
  | appends hn hv => exact h.appends hl hn hv
  | changes hs hg => exact h.changes hl hs hg

/-- The header of a table opens it at the end. -/
theorem Follows.heads {name : String} {t : Entries} (hhere : p'.here = [name])
    (hlook : p.entries.lookup name = none ∨ ∃ t, p.entries.lookup name = some (.table .implied t))
    (he : p'.entries = p.entries.filter (fun e => e.1 ≠ name) ++ [(name, .table .written t)]) :
    Follows (ls ++ [.table ⟨[], name⟩]) p' := by
  have hn : ls.any (·.heads name) = false := by
    rcases hlook with hnone | ⟨t, hs⟩
    · refine Bool.eq_false_iff.2 fun hc => Entries.lookup_eq_none.1 hnone ?_
      exact (h.names name).2 (mem_tops_of_heads hc [])
    · exact h.implied name t (Entries.mem_of_lookup hs)
  have hother : ∀ other, other ≠ name → Line.heads other (.table ⟨[], name⟩) = false :=
    fun other hne => by simp [Line.heads, Ne.symm hne]
  obtain ⟨entries, here⟩ := p'
  subst he
  refine ⟨?_, fun other => ?_, ?_, fun other t' ht => ?_, ?_⟩
  · rw [List.foldl_append]
    exact hhere
  · rw [tops_append, List.map_append, List.mem_append, List.mem_append, ← h.names]
    show _ ∨ other ∈ [name] ↔ _ ∨ other ∈ [name]
    by_cases hne : other = name
    · simp [hne]
    · simp [hne]
  · refine h.ordered_append List.filter_sublist (fun e he => ?_)
      (place_of_heads hn (by simp [Line.heads]))
    exact .inr (hother e.1 (by simpa using (List.mem_filter.1 he).2))
  · rcases List.mem_append.1 ht with ht | ht
    · obtain ⟨ht, hne⟩ := List.mem_filter.1 ht
      exact any_heads_append (h.implied other t' ht) (hother other (by simpa using hne))
    · cases List.mem_singleton.1 ht
  · exact h.values_append (fun e he => List.mem_of_mem_filter he) (.table _ _ _)

theorem Follows.add (ha : p.add l = some p') : Follows (ls ++ [l]) p' := by
  obtain ⟨hhere, ⟨hl, hadd⟩ | ⟨name, t, rfl, hlook, he⟩⟩ := Progress.add_cases ha
  · exact h.adds hl hhere hadd
  · exact h.heads hhere hlook he

theorem Follows.foldlM {ls' : List Line} (hf : ls'.foldlM Progress.add p = some p') :
    Follows (ls ++ ls') p' := by
  induction ls' generalizing ls p with
  | nil =>
    cases hf
    rwa [List.append_nil]
  | cons l ls' ih =>
    rw [List.foldlM_cons, Option.bind_eq_bind, Option.bind_eq_some_iff] at hf
    obtain ⟨p₁, h₁, hf⟩ := hf
    have hr := ih (h.add h₁) hf
    rwa [List.append_assoc] at hr

end

section
variable {ls : List Line} {es : Entries} (h : Entries.ofLines ls = some es)

include h

theorem follows_ofLines : ∃ here, Follows ls ⟨es, here⟩ := by
  obtain ⟨⟨_, here⟩, hf, rfl⟩ := Option.map_eq_some_iff.1 h
  exact ⟨here, follows_nil.foldlM hf⟩

/-- The entries of a document stand in the order in which they were opened. -/
theorem ordered_ofLines : es.Pairwise fun a b => place ls a.1 < place ls b.1 := by
  obtain ⟨here, hf⟩ := follows_ofLines h
  exact hf.ordered

theorem nodup_ofLines : (es.map (·.1)).Nodup := by
  refine List.pairwise_map.2 ((ordered_ofLines h).imp fun {a b} hab he => ?_)
  rw [he] at hab
  exact Nat.lt_irrefl _ hab

/-- A document has the entries that its lines add to. -/
theorem mem_ofLines (name : String) : name ∈ es.map (·.1) ↔ name ∈ tops [] ls := by
  obtain ⟨here, hf⟩ := follows_ofLines h
  exact hf.names name

/-- What is at the top of a document was bound there, or it is a table. -/
theorem puts_ofLines {e : String × Toml} (he : e ∈ es) : ∃ l ∈ ls, l.Puts e.2 := by
  obtain ⟨here, hf⟩ := follows_ofLines h
  exact hf.values e he

end

end TwoPhaseStore.Toml
