import SyntaxForest.Proofs.Kind.Table
/-!
# Records that match a table

`FieldType.Takes` says which values a field may hold, and which nodes it then holds;
`FieldTable.Takes` says so of a record. The checks of a table decide it: a record passes
exactly if every field takes its value (`check_eq_ok_iff`), and is refused for the first
field that does not (`check_eq_error`). The copy of a record that is stored has the values
given, under the names of the table and no others (`Stores.mapNodes_eq`).
-/

namespace SyntaxForest

/-- What a field takes, and the nodes it then holds: null where the field is optional, an
integral number for an int, any number for a float, and nothing but nodes in a list. -/
inductive FieldType.Takes : FieldType → Value → List NodeId → Prop
  | null {type} : type.isOptional = true → Takes type .null []
  | int {optional n} : n.isInteger = true → Takes (.scalar .int optional) (.scalar (.num n)) []
  | float {optional n} : Takes (.scalar .float optional) (.scalar (.num n)) []
  | string {optional s} : Takes (.scalar .string optional) (.scalar (.text s)) []
  | bool {optional b} : Takes (.scalar .bool optional) (.scalar (.bool b)) []
  | node {optional id} : Takes (.node optional) (.node id) [id]
  | nodes {ids} : Takes .nodes (.list (ids.map .node)) ids

/-- What a table takes: for every field a value that it takes. The nodes of the record are
those of its fields, in the order of the table. -/
inductive FieldTable.Takes (fields : Fields) : FieldTable → List NodeId → Prop
  | nil : Takes fields [] []
  | cons {e table ids rest} : e.type.Takes (Fields.read fields e.name) ids → Takes fields table rest →
      Takes fields (e :: table) (ids ++ rest)

namespace FieldType

variable {type : FieldType} {v : Value} {ids : List NodeId}

theorem nodes_of_fits {items : List Value} (h : FieldType.nodes.fits (.list items) = true) :
    (items.filterMap Value.node?).map .node = items := by
  induction items with
  | nil => rfl
  | cons v rest ih =>
    simp only [fits, List.all_cons, Bool.and_eq_true] at h
    cases v with
    | node id => simpa [Value.node?] using ih (by simpa [fits] using h.2)
    | _ => cases h.1

theorem takes_iff : type.Takes v ids ↔ type.fits v = true ∧ type.nodesOf v = ids := by
  constructor
  · intro h
    cases h with
    | null hoptional => exact ⟨hoptional, by cases type <;> rfl⟩
    | int hn => exact ⟨hn, rfl⟩
    | nodes => exact ⟨by simp [fits, Value.node?], filterMap_node?_nodes _⟩
    | _ => exact ⟨rfl, rfl⟩
  · rintro ⟨hfits, rfl⟩
    cases v with
    | absent => cases hfits
    | object => cases hfits
    | builtin => cases hfits
    | null =>
      rw [show type.nodesOf .null = [] by cases type <;> rfl]
      exact .null hfits
    | scalar s =>
      cases type with
      | scalar t _ =>
        cases t with
        | int => cases s with
          | num => exact .int hfits
          | _ => cases hfits
        | float => cases s with
          | num => exact .float
          | _ => cases hfits
        | string => cases s with
          | text => exact .string
          | _ => cases hfits
        | bool => cases s with
          | bool => exact .bool
          | _ => cases hfits
      | _ => cases hfits
    | node =>
      cases type with
      | node => exact .node
      | _ => cases hfits
    | list items =>
      cases type with
      | nodes =>
        rw [nodesOf]
        conv => enter [2]; rw [← nodes_of_fits hfits]
        exact .nodes
      | _ => cases hfits

/-- A copy of a value that a field takes is the value itself. -/
theorem Takes.mapNodes_eq (h : type.Takes v ids) : type.mapNodes .node v = v := by
  cases h with
  | null => cases type <;> rfl
  | nodes => rw [mapNodes, filterMap_node?_nodes]
  | _ => rfl

end FieldType

namespace FieldTable

variable {table : FieldTable} {fields : Fields} {ids : List NodeId}

theorem takes_iff : table.Takes fields ids ↔ table.fits fields = true ∧ table.children fields = ids := by
  induction table generalizing ids with
  | nil =>
    constructor
    · rintro ⟨⟩
      exact ⟨rfl, rfl⟩
    · rintro ⟨-, rfl⟩
      exact .nil
  | cons e rest ih =>
    rw [children_cons, fits_iff, List.forall_mem_cons, ← fits_iff]
    constructor
    · rintro (_ | ⟨hvalue, hrest⟩)
      obtain ⟨hfits, rfl⟩ := FieldType.takes_iff.1 hvalue
      obtain ⟨hfits', rfl⟩ := ih.1 hrest
      exact ⟨⟨hfits, hfits'⟩, rfl⟩
    · rintro ⟨⟨hfits, hfits'⟩, rfl⟩
      exact .cons (FieldType.takes_iff.2 ⟨hfits, rfl⟩) (ih.2 ⟨hfits', rfl⟩)

/-- A record fits exactly if every field takes its value. -/
theorem fits_iff_takes : table.fits fields = true ↔
    ∀ e ∈ table, ∃ ids, e.type.Takes (Fields.read fields e.name) ids := by
  rw [fits_iff]
  refine forall₂_congr (fun e _ => ⟨fun h => ⟨_, FieldType.takes_iff.2 ⟨h, rfl⟩⟩, ?_⟩)
  rintro ⟨ids, h⟩
  exact (FieldType.takes_iff.1 h).1

/-! ## The checks -/

variable {kindOf : NodeId → String} {kind : String}

theorem check_eq_ok_iff : table.check kindOf kind fields = .ok () ↔ table.fits fields = true :=
  ⟨fun h => fits_iff.2 (fits_of_check h).2, check_of_fits kindOf kind⟩

/-- What is reported is the first field in the order of the table that does not take its
value, with what it takes and what it was given. -/
theorem check_eq_error {before after : FieldTable} {e : FieldSpec} (htable : table = before ++ e :: after)
    (hbefore : ∀ d ∈ before, ∃ ids, d.type.Takes (Fields.read fields d.name) ids)
    (he : ¬ ∃ ids, e.type.Takes (Fields.read fields e.name) ids) :
    table.check kindOf kind fields =
      .error (.fieldMismatch e.name kind e.type.describe ((Fields.read fields e.name).describe kindOf)) := by
  have hfirst : table.mismatch? fields = some e := by
    rw [mismatch?, List.find?_eq_some_iff_append]
    refine ⟨?_, before, after, htable, fun d hd => ?_⟩
    · rw [Bool.not_eq_true', Bool.eq_false_iff]
      exact fun hfits => he ⟨_, FieldType.takes_iff.2 ⟨hfits, rfl⟩⟩
    · obtain ⟨ids, hd⟩ := hbefore d hd
      rw [(FieldType.takes_iff.1 hd).1]
      rfl
  rw [check, hfirst]

theorem check_cases (table : FieldTable) (kindOf : NodeId → String) (kind : String) (fields : Fields) :
    table.check kindOf kind fields = .ok () ∧ table.fits fields = true ∨
      ∃ fault, table.check kindOf kind fields = .error fault ∧ table.fits fields = false := by
  rcases hfits : table.fits fields with _ | _
  · rcases hcheck : table.check kindOf kind fields with fault | _
    · exact .inr ⟨fault, rfl, rfl⟩
    · rw [check_eq_ok_iff.1 hcheck] at hfits
      cases hfits
  · exact .inl ⟨check_of_fits kindOf kind hfits, rfl⟩

/-- What a record alone settles about a call that is given it: it succeeds exactly if every
field takes its value, and otherwise fails for the first field that does not, leaving
everything as it was at the start. -/
structure Settles (table : FieldTable) (kindOf : NodeId → String) (kind : String) (fields : Fields)
    {α τ : Type} (start : τ) (outcome : Except Fault α × τ) : Prop where
  ok_iff : (∃ a, outcome.1 = .ok a) ↔ ∀ e ∈ table, ∃ ids, e.type.Takes (Fields.read fields e.name) ids
  refused : ∀ before e after, table = before ++ e :: after →
    (∀ d ∈ before, ∃ ids, d.type.Takes (Fields.read fields d.name) ids) →
    (¬ ∃ ids, e.type.Takes (Fields.read fields e.name) ids) → outcome =
      (.error (.fieldMismatch e.name kind e.type.describe ((Fields.read fields e.name).describe kindOf)), start)

theorem settles_of_fits {α τ : Type} {start : τ} {outcome : Except Fault α × τ}
    (hfits : table.fits fields = true) (hok : ∃ a, outcome.1 = .ok a) :
    table.Settles kindOf kind fields start outcome := by
  refine ⟨⟨fun _ => fits_iff_takes.1 hfits, fun _ => hok⟩, fun before e after htable _ he => ?_⟩
  exact absurd (fits_iff_takes.1 hfits e (by simp [htable])) he

theorem settles_of_refused {α τ : Type} {start : τ} {fault : Fault}
    (hcheck : table.check kindOf kind fields = .error fault) :
    table.Settles kindOf kind fields start ((.error fault, start) : Except Fault α × τ) := by
  refine ⟨⟨fun ⟨_, hok⟩ => (nomatch hok), fun htakes => ?_⟩, fun before e after htable hbefore he => ?_⟩
  · rw [check_of_fits _ _ (fits_iff_takes.2 htakes)] at hcheck
    cases hcheck
  · rw [check_eq_error htable hbefore he] at hcheck
    cases hcheck
    rfl

/-! ## What is stored -/

/-- A copy of a record that can be stored lists the values given. -/
theorem Stores.mapNodes_eq (h : table.Stores fields) : table.mapNodes .node fields = table.listed fields := by
  refine List.map_congr_left (fun e he => ?_)
  obtain ⟨_, htakes⟩ := fits_iff_takes.1 h.fits e he
  rw [htakes.mapNodes_eq, h.keeps e he]

end FieldTable

end SyntaxForest
