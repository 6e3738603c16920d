import Mathlib.Data.List.DropRight
import SyntaxForest.Fault.Template
/-!
# The grammar of templates

`Splits` says how a template is made up of literal characters and placeholders, and
`Closed` that no brace opens behind the last one that closes. A template has a split if and
only if it is closed, and then only one; the reader of templates finds it
(`pieces?_eq_some_iff`, `isSome_pieces?`). Rendering writes the pieces one by one:
`rendering_follows_the_grammar`. A closed template leaves the reader between two pieces at
its end, so templates can be rendered one after the other: `rendering_is_compositional`.
-/

namespace SyntaxForest.Template

/-- Literal characters are all but the opening brace, and an opening brace right before
another one. A placeholder is a name between braces; in the name no brace closes, and it
does not begin with one that opens. -/
inductive Splits : List Char → List Piece → Prop
  | nil : Splits [] []
  | literal {c rest parts} : c ≠ openBrace ∨ rest.head? = some openBrace → Splits rest parts →
      Splits (c :: rest) (.literal c :: parts)
  | placeholder {name rest parts} : closeBrace ∉ name → name.head? ≠ some openBrace → Splits rest parts →
      Splits (openBrace :: (name ++ closeBrace :: rest)) (.placeholder name :: parts)

/-- No brace opens after the last one that closes, or at all where none closes. -/
def Closed (cs : List Char) : Prop := openBrace ∉ cs.rtakeWhile (· ≠ closeBrace)

variable {c : Char} {cs ds rest name acc : List Char} {parts more : List Piece} {valueOf : String → String}

/-! ## Closed templates -/

theorem closed_nil : Closed [] := List.not_mem_nil

/-- Every brace that opens has one behind it that closes. -/
theorem closed_cons : Closed (c :: rest) ↔ (c = openBrace → closeBrace ∈ rest) ∧ Closed rest := by
  have hall : rest.reverse.takeWhile (· ≠ closeBrace) = rest.reverse ↔ closeBrace ∉ rest := by
    rw [List.takeWhile_eq_self_iff]
    simp only [List.mem_reverse, decide_eq_true_eq]
    exact ⟨fun h hmem => h _ hmem rfl, fun h x hx heq => h (heq ▸ hx)⟩
  rw [Closed, Closed, List.rtakeWhile, List.rtakeWhile, List.reverse_cons, List.mem_reverse, List.mem_reverse]
  by_cases hmem : closeBrace ∈ rest
  · have hstops : (rest.reverse ++ [c]).takeWhile (· ≠ closeBrace) = rest.reverse.takeWhile (· ≠ closeBrace) := by
      rw [List.takeWhile_append, if_neg]
      intro hlength
      exact hall.1 ((List.takeWhile_prefix _).eq_of_length hlength) hmem
    rw [hstops]
    exact ⟨fun h => ⟨fun _ => hmem, h⟩, fun h => h.2⟩
  · have hruns : (rest.reverse ++ [c]).takeWhile (· ≠ closeBrace) =
        rest.reverse ++ [c].takeWhile (· ≠ closeBrace) := by
      rw [List.takeWhile_append, if_pos (by rw [hall.2 hmem])]
    rw [hruns, hall.2 hmem, List.mem_append, not_or, and_comm]
    refine and_congr_left (fun _ => ?_)
    by_cases hc : c = closeBrace
    · subst hc
      simp [openBrace, closeBrace]
    · rw [List.takeWhile_cons_of_pos (by simpa using hc)]
      simp [hmem, eq_comm]

theorem Closed.of_append (h : Closed (cs ++ ds)) : Closed ds := by
  induction cs with
  | nil => exact h
  | cons c rest ih => exact ih (closed_cons.1 h).2

/-! ## The reader finds the split -/

/-- Inside a placeholder the reader goes on to the next brace that closes. -/
theorem pieces?_name (hname : closeBrace ∉ name) : pieces? (some acc) (name ++ closeBrace :: rest) =
    (pieces? none rest).map (.placeholder (acc.reverse ++ name) :: ·) := by
  induction name generalizing acc with
  | nil => simp [pieces?]
  | cons c name ih =>
    obtain ⟨hc, hname⟩ := not_or.1 (mt List.mem_cons.2 hname)
    rw [List.cons_append, pieces?, if_neg (Ne.symm hc), ih hname]
    simp

theorem Splits.pieces?_eq (h : Splits cs parts) : pieces? none cs = some parts := by
  induction h with
  | nil => rfl
  | literal hc _ ih =>
    rw [pieces?, if_neg (fun hopens => hc.elim (· hopens.1) hopens.2), ih]
    rfl
  | @placeholder name rest parts hname hhead _ ih =>
    have hnext : (name ++ closeBrace :: rest).head? ≠ some openBrace := by
      cases name with
      | nil => simp [openBrace, closeBrace]
      | cons => exact hhead
    rw [pieces?, if_pos ⟨rfl, hnext⟩, pieces?_name hname, ih]
    rfl

/-- What the reader finds: a split, or inside a placeholder the rest of its name and a split
of all that comes after it. -/
def Finds : Option (List Char) → List Char → List Piece → Prop
  | none, cs, parts => Splits cs parts
  | some acc, cs, parts => ∃ name rest more, cs = name ++ closeBrace :: rest ∧ closeBrace ∉ name ∧
      Splits rest more ∧ parts = .placeholder (acc.reverse ++ name) :: more

theorem finds_of_pieces? (state : Option (List Char)) (cs : List Char) (parts : List Piece) :
    pieces? state cs = some parts → Finds state cs parts := by
  fun_induction pieces? state cs generalizing parts with
  | case1 =>
    rintro ⟨⟩
    exact .nil
  | case2 => exact nofun
  | case3 c rest hopens ih =>
    intro h
    obtain ⟨name, after, more, rfl, hname, hmore, rfl⟩ := ih parts h
    obtain ⟨rfl, hhead⟩ := hopens
    -- the name begins as what stands behind the brace, which does not open another one
    refine .placeholder hname (fun hbad => hhead ?_) hmore
    rw [List.head?_append, hbad]
    rfl
  | case4 c rest hliteral ih =>
    intro h
    obtain ⟨more, hmore, rfl⟩ := Option.map_eq_some_iff.1 h
    refine .literal ?_ (ih more hmore)
    by_cases hc : c = openBrace
    · exact .inr (by_contra (fun hhead => hliteral ⟨hc, hhead⟩))
    · exact .inl hc
  | case5 acc rest ih =>
    intro h
    obtain ⟨more, hmore, rfl⟩ := Option.map_eq_some_iff.1 h
    exact ⟨[], rest, more, rfl, List.not_mem_nil, ih more hmore, by simp⟩
  | case6 acc c rest hc ih =>
    intro h
    obtain ⟨name, after, more, rfl, hname, hmore, rfl⟩ := ih parts h
    exact ⟨c :: name, after, more, rfl, by simp [hname, Ne.symm hc], hmore, by simp⟩

theorem pieces?_eq_some_iff : pieces? none cs = some parts ↔ Splits cs parts :=
  ⟨finds_of_pieces? none cs parts, Splits.pieces?_eq⟩

/-- The reader succeeds on closed templates. Inside a placeholder it needs a brace that
closes as well. -/
theorem isSome_pieces? (state : Option (List Char)) (cs : List Char) :
    (pieces? state cs).isSome ↔ (state.isSome → closeBrace ∈ cs) ∧ Closed cs := by
  fun_induction pieces? state cs with
  | case1 => simp [closed_nil]
  | case2 => simp
  | case3 c rest hopens ih => simp [ih, closed_cons, hopens.1]
  | case4 c rest hliteral ih =>
    rw [Option.isSome_map, ih, closed_cons]
    refine ⟨fun ⟨_, hrest⟩ => ⟨nofun, fun hc => ?_, hrest⟩, fun ⟨_, _, hrest⟩ => ⟨nofun, hrest⟩⟩
    -- the brace is literal, so the one behind it opens, and that has one that closes
    obtain ⟨next, rfl⟩ : ∃ next, rest = openBrace :: next := by
      rcases rest with _ | ⟨d, next⟩
      · exact absurd ⟨hc, nofun⟩ hliteral
      · by_cases hd : d = openBrace
        · exact ⟨next, by rw [hd]⟩
        · exact absurd ⟨hc, by simpa using hd⟩ hliteral
    exact List.mem_cons_of_mem _ ((closed_cons.1 hrest).1 rfl)
  | case5 acc rest ih =>
    rw [Option.isSome_map, ih, closed_cons]
    simp [openBrace, closeBrace]
  | case6 acc c rest hc ih =>
    rw [ih, closed_cons]
    simp only [Option.isSome_some, forall_const, List.mem_cons, Ne.symm hc, false_or]
    exact ⟨fun ⟨hmem, hrest⟩ => ⟨hmem, fun _ => hmem, hrest⟩, fun ⟨hmem, _, hrest⟩ => ⟨hmem, hrest⟩⟩

theorem pieces?_eq_none_iff : pieces? none cs = none ↔ ¬ Closed cs := by
  rw [← Option.not_isSome_iff_eq_none, isSome_pieces?]
  simp

theorem exists_splits (h : Closed cs) : ∃ parts, Splits cs parts := by
  obtain ⟨parts, hparts⟩ := Option.isSome_iff_exists.1 ((isSome_pieces? none cs).2 ⟨nofun, h⟩)
  exact ⟨parts, pieces?_eq_some_iff.1 hparts⟩

theorem Splits.unique (h : Splits cs parts) (h' : Splits cs more) : parts = more :=
  Option.some.inj (h.pieces?_eq.symm.trans h'.pieces?_eq)

/-- Splits of two templates make up one of both: a brace at the seam is never the last
character of the first one. -/
theorem Splits.append (h : Splits cs parts) (h' : Splits ds more) : Splits (cs ++ ds) (parts ++ more) := by
  induction h with
  | nil => exact h'
  | literal hc _ ih =>
    rw [List.cons_append, List.cons_append]
    refine .literal (hc.imp_right (fun hhead => ?_)) ih
    rw [List.head?_append, hhead]
    rfl
  | @placeholder name rest parts hname hhead _ ih =>
    rw [List.cons_append, List.append_assoc]
    exact .placeholder hname hhead ih

/-! ## Rendering -/

theorem fill_of_splits {template : String} (h : Splits template.toList parts) :
    fill valueOf template = String.ofList (parts.flatMap (Piece.text valueOf)) := by
  rw [fill, h.pieces?_eq]

theorem fill_of_not_closed {template : String} (h : ¬ Closed template.toList) :
    fill valueOf template = template := by
  rw [fill, pieces?_eq_none_iff.2 h]

/-- A template in which a brace opens after the last one that closes renders as itself.
Every other one splits in one way only, and renders as the literals and the texts of the
placeholders one after the other; a text is written as it is, with its braces. What a context
inherits under a name, whatever it inherits from, is a value like those it holds. -/
theorem rendering_follows_the_grammar (nodeText : NodeId → String) (elsewhere : String → Value)
    (template : String) (context : Fields) :
    (¬ Closed template.toList → renderWith nodeText elsewhere template context = template) ∧
    (Closed template.toList → ∃ parts, (∀ others, Splits template.toList others ↔ others = parts) ∧
      renderWith nodeText elsewhere template context =
        String.ofList (parts.flatMap (Piece.text (placeholderText nodeText elsewhere context)))) := by
  refine ⟨fill_of_not_closed, fun hclosed => ?_⟩
  obtain ⟨parts, hparts⟩ := exists_splits hclosed
  exact ⟨parts, fun others => ⟨fun h => h.unique hparts, fun h => h ▸ hparts⟩, fill_of_splits hparts⟩

-- the first of the braces that open is literal, and the text of the placeholder keeps its own
example : render "\x7b\x7bkind\x7d\x7d" [("kind", .scalar (.text "\x7bx"))] = "\x7b\x7bx\x7d" := by
  decide +kernel

/-- The names of the placeholders of a template. One that is not closed has none. -/
def Names (template name : String) : Prop :=
  ∃ parts, Splits template.toList parts ∧ Piece.placeholder name.toList ∈ parts

theorem fill_congr {template : String} {valueOf' : String → String}
    (h : ∀ name, Names template name → valueOf name = valueOf' name) :
    fill valueOf template = fill valueOf' template := by
  by_cases hclosed : Closed template.toList
  · obtain ⟨parts, hparts⟩ := exists_splits hclosed
    rw [fill_of_splits hparts, fill_of_splits hparts]
    congr 1
    refine List.flatMap_congr (fun piece hpiece => ?_)
    cases piece with
    | literal c => rfl
    | placeholder name =>
      have hname := h (String.ofList name) ⟨parts, hparts, by rwa [String.toList_ofList]⟩
      rw [Piece.text, Piece.text, hname]
  · rw [fill_of_not_closed hclosed, fill_of_not_closed hclosed]

theorem fill_append {s t : String} (hs : Closed s.toList) (ht : Closed t.toList) :
    fill valueOf (s ++ t) = fill valueOf s ++ fill valueOf t := by
  obtain ⟨parts, hparts⟩ := exists_splits hs
  obtain ⟨more, hmore⟩ := exists_splits ht
  have hboth : Splits (s ++ t).toList (parts ++ more) := by
    rw [String.toList_append]
    exact hparts.append hmore
  rw [fill_of_splits hboth, fill_of_splits hparts, fill_of_splits hmore, List.flatMap_append,
    String.ofList_append]

/-- Closed templates render one after the other as they do alone; a template that is not
closed keeps what stands before it from being filled. Rendering depends on the values under
the names of the placeholders only, whether the contexts hold them or inherit them, each from
something else; a name without a value and one that is given none read alike where nothing is
inherited. -/
theorem rendering_is_compositional (nodeText : NodeId → String) (elsewhere elsewhere' : String → Value)
    (s t : String) (context other : Fields) :
    (Closed s.toList → Closed t.toList → renderWith nodeText elsewhere (s ++ t) context =
      renderWith nodeText elsewhere s context ++ renderWith nodeText elsewhere t context) ∧
    (Closed s.toList → ¬ Closed t.toList → renderWith nodeText elsewhere (s ++ t) context = s ++ t) ∧
    ((∀ name, Names s name → Fields.readOver elsewhere context name = Fields.readOver elsewhere' other name) →
      renderWith nodeText elsewhere s context = renderWith nodeText elsewhere' s other) := by
  refine ⟨fill_append, fun _ ht => fill_of_not_closed (fun hboth => ht ?_), fun hagree => ?_⟩
  · rw [String.toList_append] at hboth
    exact hboth.of_append
  · refine fill_congr (fun name hname => ?_)
    rw [placeholderText, placeholderText, hagree name hname]

/-- Two records that are given the same values do not read alike where one of them is given
none and the other inherits: the first one hides what the second one shows. -/
theorem inherited_values_are_rendered :
    (∀ name, (Fields.find? [] name).getD .absent =
      (Fields.find? [("constructor", Value.absent)] name).getD .absent) ∧
    render "\x7bconstructor\x7d" [] = "function Object() \x7b [native code] \x7d" ∧
    render "\x7bconstructor\x7d" [("constructor", .absent)] = "" := by
  refine ⟨fun name => ?_, by decide +kernel, by decide +kernel⟩
  by_cases hname : "constructor" = name
  · simp [Fields.find?, hname]
  · simp [Fields.find?, hname]

end SyntaxForest.Template
