import SyntaxForest.Proofs.Kind.Fit
import SyntaxForest.Proofs.Kind.Made
/-!
# Legal declarations

`Check` lists what a declaration can be checked for, `Check.Holds` says what it must be to
pass, and `Check.Reports` with which fault it fails. Each strategy makes its checks in an
order of its own (`Strategy.checks`). Main statement: `declarations_are_accepted_when_legal`.
A declaration is accepted exactly if every check of its strategy holds, and otherwise the
first one that does not is reported.
-/

namespace SyntaxForest

def IsLetter (c : Char) : Prop := ('A' ≤ c ∧ c ≤ 'Z') ∨ ('a' ≤ c ∧ c ≤ 'z')

/-- A letter, and then letters, digits and underscores. -/
def IsLegalName (name : String) : Prop :=
  ∃ first rest, name.toList = first :: rest ∧ IsLetter first ∧
    ∀ c ∈ rest, IsLetter c ∨ ('0' ≤ c ∧ c ≤ '9') ∨ c = '_'

theorem isAlpha_iff (c : Char) : c.isAlpha = true ↔ IsLetter c := by
  have hupper : c.isUpper = true ↔ 'A' ≤ c ∧ c ≤ 'Z' := decide_eq_true_iff
  have hlower : c.isLower = true ↔ 'a' ≤ c ∧ c ≤ 'z' :=
    Bool.and_eq_true_iff.trans (and_congr decide_eq_true_iff decide_eq_true_iff)
  exact Bool.or_eq_true_iff.trans (or_congr hupper hlower)

theorem isDigit_iff (c : Char) : c.isDigit = true ↔ '0' ≤ c ∧ c ≤ '9' :=
  Bool.and_eq_true_iff.trans (and_congr decide_eq_true_iff decide_eq_true_iff)

theorem isKindName_iff (name : String) : isKindName name = true ↔ IsLegalName name := by
  unfold isKindName IsLegalName
  rcases name.toList with _ | ⟨first, rest⟩
  · simp
  · simp only [Bool.and_eq_true, List.all_eq_true, Bool.or_eq_true, Char.isAlphanum, beq_iff_eq,
      isAlpha_iff, isDigit_iff, or_assoc]
    constructor
    · exact fun ⟨hfirst, hrest⟩ => ⟨first, rest, rfl, hfirst, hrest⟩
    · rintro ⟨_, _, ⟨⟩, hfirst, hrest⟩
      exact ⟨hfirst, hrest⟩

theorem Registry.has_iff {r : Registry} {kind : String} : r.has kind = true ↔ kind ∈ r.kinds := by
  simp [has, Fields.has, kinds]

/-- Two splits of a list at its first element with a property are one. -/
theorem first_unique {α : Type} {P : α → Prop} {before other after more : List α} {a b : α}
    (h : before ++ a :: after = other ++ b :: more) (hbefore : ∀ x ∈ before, P x) (hother : ∀ x ∈ other, P x)
    (ha : ¬ P a) (hb : ¬ P b) : a = b := by
  rcases List.append_eq_append_iff.1 h with ⟨mid, hsplit, hrest⟩ | ⟨mid, hsplit, hrest⟩
  · rcases mid with _ | ⟨c, mid⟩
    · exact (List.cons.inj hrest).1
    · obtain ⟨rfl, -⟩ := List.cons.inj hrest
      exact absurd (hother a (by simp [hsplit])) ha
  · rcases mid with _ | ⟨c, mid⟩
    · exact (List.cons.inj hrest).1.symm
    · obtain ⟨rfl, -⟩ := List.cons.inj hrest
      exact absurd (hbefore b (by simp [hsplit])) hb

/-- What a declaration can be checked for. -/
inductive Check where
  /-- No field holds nodes. -/
  | leaf
  | name
  /-- No field has a reserved name. -/
  | reserved
  /-- The category asked for fits the only field. -/
  | category
  /-- The display field asked for is a scalar field. -/
  | display
  /-- The name is free in the registry. -/
  | free
deriving DecidableEq

/-- The checks of a strategy, in the order in which they are made. -/
def Strategy.checks : Strategy → List Check
  | .standard | .optimized => [.name, .reserved, .display, .free]
  | .value => [.leaf, .name, .reserved, .display, .free]
  | .pooled => [.leaf, .reserved, .category, .name, .display, .free]

namespace Check

/-- What a violated check is reported as. -/
def code : Check → FaultCode
  | leaf | category => .unfitStrategy
  | name => .invalidKindName
  | reserved => .reservedField
  | display => .fieldMismatch
  | free => .duplicateKind

variable (d : Declaration) (r : Registry)

def Holds : Check → Prop
  | leaf => ∀ e ∈ d.table, e.type.isScalar = true
  | name => IsLegalName d.name
  | reserved => ∀ e ∈ d.table, e.name ∉ FieldTable.reservedNames
  | category => ∀ field type name, d.table = [⟨field, .scalar type false⟩] → d.category = some name →
      ∃ c : PoolCategory, c.name = name ∧ Declaration.fieldTypeOf c = type
  | display => ∀ name, d.display = some name → ∃ e ∈ d.table, e.name = name ∧ e.type.isScalar = true
  | free => d.name ∉ r.kinds

/-- The fault of a violated check. Of several fields that violate it, the first one counts. -/
inductive Reports : Check → Fault → Prop
  | leaf {before e after} : d.table = before ++ e :: after →
      (∀ earlier ∈ before, earlier.type.isScalar = true) → e.type.isScalar = false →
      Reports leaf (.unfitStrategy d.name d.strategy.name s!"field {e.name} holds nodes")
  | name : ¬ IsLegalName d.name → Reports name (.invalidKindName d.name)
  | reserved {before e after} : d.table = before ++ e :: after →
      (∀ earlier ∈ before, earlier.name ∉ FieldTable.reservedNames) → e.name ∈ FieldTable.reservedNames →
      Reports reserved (.reservedField e.name d.name)
  | category {field type name} : d.table = [⟨field, .scalar type false⟩] → d.category = some name →
      (∀ c : PoolCategory, c.name = name → Declaration.fieldTypeOf c ≠ type) →
      Reports category (.unfitStrategy d.name d.strategy.name
        s!"pool category {name} does not fit {type.name} field {field}")
  | display {name} : d.display = some name →
      (∀ e ∈ d.table, e.name = name → e.type.isScalar = false) →
      Reports display (.fieldMismatch name d.name "a primitive field to display" "no such primitive field")
  | free : d.name ∈ r.kinds → Reports free (.duplicateKind d.name)

variable {d r} {check : Check} {fault other : Fault}

theorem Reports.code (h : check.Reports d r fault) : ∃ context, fault = .ofCode check.code context := by
  cases h <;> exact ⟨_, rfl⟩

theorem Reports.not_holds (h : check.Reports d r fault) : ¬ check.Holds d r := by
  cases h with
  | leaf htable _ he =>
    intro hall
    have hscalar := hall _ (htable ▸ List.mem_append_right _ List.mem_cons_self)
    rw [he] at hscalar
    cases hscalar
  | name hname => exact hname
  | reserved htable _ he => exact fun hall => hall _ (htable ▸ List.mem_append_right _ List.mem_cons_self) he
  | category htable hcategory hnone =>
    intro hall
    obtain ⟨c, hname, hfits⟩ := hall _ _ _ htable hcategory
    exact hnone c hname hfits
  | display hdisplay hnone =>
    intro hall
    obtain ⟨e, he, hname, hscalar⟩ := hall _ hdisplay
    rw [hnone e he hname] at hscalar
    cases hscalar
  | free hmem => exact fun hfree => hfree hmem

theorem Reports.unique (h : check.Reports d r fault) (h' : check.Reports d r other) : fault = other := by
  cases h with
  | leaf htable hbefore he =>
    obtain ⟨htable', hbefore', he'⟩ | _ := h'
    rw [first_unique (htable.symm.trans htable') hbefore hbefore' (by simp [he]) (by simp [he'])]
  | name => cases h'; rfl
  | reserved htable hbefore he =>
    obtain _ | _ | ⟨htable', hbefore', he'⟩ | _ := h'
    rw [first_unique (htable.symm.trans htable') hbefore hbefore' (not_not.2 he) (not_not.2 he')]
  | category htable hcategory =>
    obtain _ | _ | _ | ⟨htable', hcategory'⟩ := h'
    cases htable.symm.trans htable'
    cases hcategory.symm.trans hcategory'
    rfl
  | display hdisplay =>
    obtain _ | _ | _ | _ | ⟨hdisplay'⟩ := h'
    cases hdisplay.symm.trans hdisplay'
    rfl
  | free => cases h'; rfl

/-! ## One check -/

/-- What an outcome says about checks: where it is a result they all hold, and where it is a
fault, the first one that does not has reported it. -/
def Settled (d : Declaration) (r : Registry) (checks : List Check) {α : Type} : Except Fault α → Prop
  | .ok _ => ∀ check ∈ checks, check.Holds d r
  | .error fault => ∃ before check after, checks = before ++ check :: after ∧
      (∀ earlier ∈ before, earlier.Holds d r) ∧ check.Reports d r fault

variable {checks more : List Check} {α β : Type}

theorem settled_single_ok {a : α} (h : check.Holds d r) : Settled d r [check] (.ok a) :=
  fun _ hmem => List.mem_singleton.1 hmem ▸ h

theorem settled_single_error (h : check.Reports d r fault) :
    Settled d r [check] (.error fault : Except Fault α) :=
  ⟨[], check, [], rfl, by simp, h⟩

theorem settled_checkName (d : Declaration) (r : Registry) : Settled d r [.name] d.checkName := by
  unfold Declaration.checkName
  split
  · next h => exact settled_single_ok ((isKindName_iff _).1 h)
  · next h => exact settled_single_error (.name (fun hname => h ((isKindName_iff _).2 hname)))

theorem settled_checkLeaf (d : Declaration) (r : Registry) : Settled d r [.leaf] d.checkLeaf := by
  unfold Declaration.checkLeaf
  split
  · next h =>
    rw [List.find?_eq_none] at h
    exact settled_single_ok (fun e he => by simpa using h e he)
  · next e h =>
    obtain ⟨he, before, after, htable, hbefore⟩ := List.find?_eq_some_iff_append.1 h
    exact settled_single_error (.leaf htable (fun x hx => by simpa using hbefore x hx) (by simpa using he))

theorem settled_checkReserved (d : Declaration) (r : Registry) : Settled d r [.reserved] d.checkReserved := by
  unfold Declaration.checkReserved
  split
  · next h =>
    rw [List.find?_eq_none] at h
    exact settled_single_ok (fun e he => by simpa using h e he)
  · next e h =>
    obtain ⟨he, before, after, htable, hbefore⟩ := List.find?_eq_some_iff_append.1 h
    exact settled_single_error (.reserved htable (fun x hx => by simpa using hbefore x hx) (by simpa using he))

theorem settled_chooseDisplay (d : Declaration) (r : Registry) : Settled d r [.display] d.chooseDisplay := by
  unfold Declaration.chooseDisplay
  split
  · next name hdisplay =>
    split
    · next h =>
      obtain ⟨e, he, hfield⟩ := List.any_eq_true.1 h
      obtain ⟨hscalar, hname⟩ := Bool.and_eq_true_iff.1 hfield
      refine settled_single_ok (fun other hother => ?_)
      cases hdisplay.symm.trans hother
      exact ⟨e, he, by simpa using hname, hscalar⟩
    · next h =>
      refine settled_single_error (.display hdisplay (fun e he hname => ?_))
      rw [Bool.not_eq_true, Declaration.hasScalarField, List.any_eq_false] at h
      simpa [hname] using h e he
  · next hdisplay =>
    refine settled_single_ok (fun name hname => ?_)
    cases hdisplay.symm.trans hname

/-- A category under a name that fits a type. -/
theorem filter_ofName?_eq_some_iff {name : String} {type : ScalarType} {c : PoolCategory} :
    (PoolCategory.ofName? name).filter (fun c => Declaration.fieldTypeOf c == type) = some c ↔
      c.name = name ∧ Declaration.fieldTypeOf c = type := by
  have hname : PoolCategory.ofName? name = some c ↔ c.name = name := by
    constructor
    · intro h
      simpa using List.find?_some h
    · rintro rfl
      cases c <;> decide
  rw [Option.filter_eq_some_iff, hname, beq_iff_eq]

theorem settled_chooseCategory (d : Declaration) (r : Registry) : Settled d r [.category] d.chooseCategory := by
  unfold Declaration.chooseCategory
  split
  · next field type htable =>
    split
    · next hcategory => exact settled_single_ok (fun _ _ name _ hname => nomatch hcategory.symm.trans hname)
    · next name hcategory =>
      split
      · next c hc =>
        refine settled_single_ok (fun field' type' name' htable' hcategory' => ⟨c, ?_⟩)
        cases htable.symm.trans htable'
        cases hcategory.symm.trans hcategory'
        exact filter_ofName?_eq_some_iff.1 hc
      · next hnone =>
        refine settled_single_error (.category htable hcategory (fun c hname hfits => ?_))
        exact nomatch hnone.symm.trans (filter_ofName?_eq_some_iff.2 ⟨hname, hfits⟩)
  · next hother =>
    exact settled_single_ok (fun field type _ htable => (hother field type htable).elim)

/-- The classes of the strategies lack nothing, so only a name that is taken is refused. -/
theorem settled_register (d : Declaration) (r : Registry) :
    Settled d r [.free] (r.register d.name d.strategy.nodeClass) := by
  have hcomplete : d.strategy.nodeClass.missingMethod? = none := by
    cases d.strategy <;> decide
  rw [Registry.register, hcomplete]
  simp only
  split
  · next h => exact settled_single_error (.free (Registry.has_iff.1 h))
  · next h => exact settled_single_ok (fun hmem => h (Registry.has_iff.2 hmem))

/-! ## One check after the other -/

theorem settled_pure (a : α) : Settled d r [] (.ok a) := nofun

theorem Settled.bind {x : Except Fault α} {next : α → Except Fault β} (h : Settled d r checks x)
    (hnext : ∀ a, Settled d r more (next a)) : Settled d r (checks ++ more) (x >>= next) := by
  rcases x with fault | a
  · obtain ⟨before, check, after, rfl, hbefore, hreports⟩ := h
    exact ⟨before, check, after ++ more, by simp, hbefore, hreports⟩
  · have hmore := hnext a
    rw [Fault.ok_bind]
    rcases hrun : next a with fault | b <;> rw [hrun] at hmore
    · obtain ⟨before, check, after, rfl, hbefore, hreports⟩ := hmore
      refine ⟨checks ++ before, check, after, by simp, fun earlier hmem => ?_, hreports⟩
      exact (List.mem_append.1 hmem).elim (h earlier) (hbefore earlier)
    · exact fun check hmem => (List.mem_append.1 hmem).elim (h check) (hmore check)

/-- A check that is made once more is never the first to be violated. -/
theorem Settled.once {x : Except Fault α} (h : Settled d r (checks ++ check :: more) x)
    (hmem : check ∈ checks) : Settled d r (checks ++ more) x := by
  rcases x with fault | a
  · obtain ⟨before, violated, after, hsplit, hbefore, hreports⟩ := h
    rcases List.append_eq_append_iff.1 hsplit with ⟨mid, rfl, hrest⟩ | ⟨mid, rfl, hrest⟩
    · rcases mid with _ | ⟨c, mid⟩
      · obtain ⟨rfl, -⟩ := List.cons.inj hrest
        exact absurd (hbefore _ (by simpa using hmem)) hreports.not_holds
      · obtain ⟨rfl, rfl⟩ := List.cons.inj hrest
        refine ⟨checks ++ mid, violated, after, by simp, fun earlier hearlier => hbefore earlier ?_, hreports⟩
        exact (List.mem_append.1 hearlier).elim (by simp_all) (by simp_all)
    · rcases mid with _ | ⟨c, mid⟩
      · obtain ⟨rfl, -⟩ := List.cons.inj hrest
        exact absurd (hbefore _ (by simpa using hmem)) hreports.not_holds
      · obtain ⟨rfl, rfl⟩ := List.cons.inj hrest
        exact ⟨before, violated, mid ++ more, by simp, hbefore, hreports⟩
  · exact fun c hc => h c (by simp only [List.mem_append, List.mem_cons] at hc ⊢; tauto)

/-- The checks that a strategy makes before everything else. -/
def early : Strategy → List Check
  | .standard | .optimized => []
  | .value => [.leaf]
  | .pooled => [.leaf, .reserved, .category]

theorem settled_checkStrategy (d : Declaration) (r : Registry) :
    Settled d r (early d.strategy) d.checkStrategy := by
  unfold Declaration.checkStrategy
  split
  · next h => exact h ▸ settled_pure none
  · next h => exact h ▸ settled_pure none
  · next h => exact h ▸ (settled_checkLeaf d r).bind (fun _ => settled_pure none)
  · next h =>
    exact h ▸ (settled_checkLeaf d r).bind (fun _ =>
      (settled_checkReserved d r).bind (fun _ => settled_chooseCategory d r))

theorem settled_accept (d : Declaration) (id : KindId) (r : Registry) :
    Settled d r d.strategy.checks (d.accept id r) := by
  have hall : Settled d r (early d.strategy ++ [.name, .reserved, .display, .free]) (d.accept id r) :=
    (settled_checkStrategy d r).bind (fun _ => (settled_checkName d r).bind (fun _ =>
      (settled_checkReserved d r).bind (fun _ => (settled_chooseDisplay d r).bind (fun _ =>
        (settled_register d r).bind (fun _ => settled_pure _)))))
  generalize d.accept id r = outcome at hall ⊢
  cases hstrategy : d.strategy <;> rw [hstrategy] at hall
  case pooled =>
    -- reserved names are looked for twice, before the category and after the name
    have htwice : Settled d r ([.leaf, .reserved, .category, .name] ++ .reserved :: [.display, .free]) outcome := hall
    exact htwice.once (by decide)
  all_goals exact hall

theorem Settled.ok_iff {x : Except Fault α} (h : Settled d r checks x) :
    (∃ a, x = .ok a) ↔ ∀ check ∈ checks, check.Holds d r := by
  constructor
  · rintro ⟨a, rfl⟩
    exact h
  · intro hall
    rcases x with fault | a
    · obtain ⟨before, check, after, rfl, -, hreports⟩ := h
      exact absurd (hall check (by simp)) hreports.not_holds
    · exact ⟨a, rfl⟩

theorem Settled.error_iff {x : Except Fault α} (h : Settled d r checks x) :
    x = .error fault ↔ ∃ before check after, checks = before ++ check :: after ∧
      (∀ earlier ∈ before, earlier.Holds d r) ∧ check.Reports d r fault := by
  constructor
  · rintro rfl
    exact h
  · rintro ⟨before, check, after, hsplit, hbefore, hreports⟩
    rcases x with other | a
    · obtain ⟨before', check', after', hsplit', hbefore', hreports'⟩ := h
      obtain rfl := first_unique (hsplit.symm.trans hsplit') hbefore hbefore' hreports.not_holds
        hreports'.not_holds
      rw [hreports.unique hreports']
    · exact absurd (h check (by simp [hsplit])) hreports.not_holds

end Check

/-! ## The kind that is made -/

namespace Declaration

variable {d : Declaration} {id : KindId} {r s : Registry} {kind : Kind}

theorem isSome_of_chooseCategory {category : Option PoolCategory} (h : d.chooseCategory = .ok category) :
    category.isSome = true ↔
      ∃ field type, d.table = [⟨field, .scalar type false⟩] ∧ (type = .int ∨ type = .bool ∨ type = .string) := by
  unfold chooseCategory at h
  split at h
  · next field type htable =>
    have honly : (∃ field type, d.table = [⟨field, .scalar type false⟩] ∧
        (type = .int ∨ type = .bool ∨ type = .string)) ↔ type = .int ∨ type = .bool ∨ type = .string := by
      simp [htable]
    rw [honly]
    split at h
    · cases h
      cases type <;> simp [defaultCategory?]
    · split at h
      · next c hc =>
        cases h
        obtain ⟨-, rfl⟩ := Check.filter_ofName?_eq_some_iff.1 hc
        cases c <;> simp [fieldTypeOf]
      · cases h
  · next hother =>
    cases h
    simp only [Option.isSome_none, Bool.false_eq_true, false_iff]
    rintro ⟨field, type, htable, -⟩
    exact hother field type htable

theorem isSome_poolCategory_iff (h : d.accept id r = .ok (kind, s)) :
    kind.poolCategory.isSome = true ↔ d.strategy = .pooled ∧
      ∃ field type, d.table = [⟨field, .scalar type false⟩] ∧ (type = .int ∨ type = .bool ∨ type = .string) := by
  have hchecked := (accepted h).checkStrategy
  generalize kind.poolCategory = category at hchecked ⊢
  unfold checkStrategy at hchecked
  split at hchecked
  case h_1 hstrategy =>
    cases hchecked
    simp [hstrategy]
  case h_2 hstrategy =>
    cases hchecked
    simp [hstrategy]
  case h_3 hstrategy =>
    obtain ⟨_, -, hnone⟩ := Fault.of_bind_eq_ok hchecked
    cases hnone
    simp [hstrategy]
  case h_4 hstrategy =>
    obtain ⟨_, -, hchecked⟩ := Fault.of_bind_eq_ok hchecked
    obtain ⟨_, -, hchosen⟩ := Fault.of_bind_eq_ok hchecked
    rw [isSome_of_chooseCategory hchosen, and_iff_right hstrategy]

end Declaration

theorem FieldType.isScalar_iff {type : FieldType} :
    type.isScalar = true ↔ ∀ v ids, type.Takes v ids → ids = [] := by
  constructor
  · intro h v ids htakes
    cases htakes with
    | node => cases h
    | nodes => cases h
    | _ => rfl
  · intro h
    cases type with
    | scalar => rfl
    | node => cases h (.node ⟨0⟩) _ .node
    | nodes => cases h _ [⟨0⟩] .nodes

theorem FieldTable.isLeaf_iff {table : FieldTable} :
    table.isLeaf = true ↔ ∀ e ∈ table, ∀ v ids, e.type.Takes v ids → ids = [] := by
  rw [isLeaf, List.all_eq_true]
  exact forall₂_congr (fun _ _ => FieldType.isScalar_iff)

/-- For every name, table, options and registry, a declaration is accepted exactly if all
checks of its strategy hold, and is otherwise refused with the fault of the first one that
does not, in the order of the strategy. The kind that is made has a pool category exactly if
it is pooled and its table is a single required integer, truth value or text; and it is a leaf
kind exactly if no field takes a value that holds nodes. -/
theorem declarations_are_accepted_when_legal (d : Declaration) (id : KindId) (r : Registry) :
    ((∃ made, d.accept id r = .ok made) ↔ ∀ check ∈ d.strategy.checks, check.Holds d r) ∧
    (∀ fault, d.accept id r = .error fault ↔
      ∃ before check after, d.strategy.checks = before ++ check :: after ∧
        (∀ earlier ∈ before, earlier.Holds d r) ∧ check.Reports d r fault) ∧
    (∀ (check : Check) (fault : Fault), check.Reports d r fault →
      ¬ check.Holds d r ∧ ∃ context, fault = .ofCode check.code context) ∧
    ∀ kind later, d.accept id r = .ok (kind, later) →
      (kind.poolCategory.isSome = true ↔ d.strategy = .pooled ∧ ∃ field type,
        d.table = [⟨field, .scalar type false⟩] ∧ (type = .int ∨ type = .bool ∨ type = .string)) ∧
      (kind.isLeaf = true ↔ ∀ e ∈ d.table, ∀ v ids, e.type.Takes v ids → ids = []) := by
  have hsettled := Check.settled_accept d id r
  refine ⟨hsettled.ok_iff, fun fault => hsettled.error_iff, fun check fault h => ⟨h.not_holds, h.code⟩,
    fun kind later h => ⟨Declaration.isSome_poolCategory_iff h, ?_⟩⟩
  rw [Kind.isLeaf, (Declaration.accepted h).table, FieldTable.isLeaf_iff]

-- the reserved name comes before the name of the kind only where nodes are shared
example : Strategy.standard.checks.map (fun check => check.code.id) =
      ["ARBOR-S002", "ARBOR-S001", "ARBOR-S003", "ARBOR-K002"] ∧
    Strategy.value.checks.map (fun check => check.code.id) =
      ["ARBOR-S004", "ARBOR-S002", "ARBOR-S001", "ARBOR-S003", "ARBOR-K002"] ∧
    Strategy.pooled.checks.map (fun check => check.code.id) =
      ["ARBOR-S004", "ARBOR-S001", "ARBOR-S004", "ARBOR-S002", "ARBOR-S003", "ARBOR-K002"] := by decide

end SyntaxForest
