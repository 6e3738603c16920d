import SyntaxForest.Settings.Policy
/-!
# Well-formed settings

`WellFormed` says which settings are accepted, and `PoolPolicy.ofSettings` what they ask for:
the numbers given, over the standard ones. Resolving does both (`resolve_eq_ok_iff`), so what
it gives is `Consistent`, and a policy written down as settings is read back exactly if it is
(`resolve_toSettings_eq_ok_iff`). Main statement: `settings_are_resolved_exactly`.
-/

namespace SyntaxForest

namespace Number

/-- A whole number that is not negative. -/
structure IsCap (x : Number) : Prop where
  isInteger : x.isInteger = true
  notBelow : x.below .zero = false

variable {x y : Number}

theorem exists_rank?_of_isInteger (h : x.isInteger = true) : ∃ a, x.rank? = some a := by
  cases x with
  | nan => cases h
  | real negative size => exact ⟨_, rfl⟩

/-- Whole numbers are in order unless they are in the opposite order. -/
theorem atMost_iff_of_isInteger (hx : x.isInteger = true) (hy : y.isInteger = true) :
    x.atMost y = true ↔ y.below x = false := by
  obtain ⟨a, ha⟩ := exists_rank?_of_isInteger hx
  obtain ⟨b, hb⟩ := exists_rank?_of_isInteger hy
  simp [atMost, below, compareBy, ha, hb]

end Number

/-- What a value holds under a name; nothing if it has no named parts. -/
def Value.member : Value → String → Value
  | .object _ entries, name => Fields.read entries name
  | _, _ => .absent

/-- Values that differ at most in the order of named parts, at any depth of these. -/
inductive Value.Reordered : Value → Value → Prop
  | refl (v : Value) : Reordered v v
  | object {bare entries others} : (∀ name, name ∈ entries.map Prod.fst ↔ name ∈ others.map Prod.fst) →
      (∀ name, Reordered (Fields.read entries name) (Fields.read others name)) →
      Reordered (.object bare entries) (.object bare others)

namespace PoolPolicy

/-! ## What settings must be -/

/-- A setting is left out, or a whole number; one that is not negative, if that is asked. -/
def IsSetting (allowNegative : Bool) (v : Value) : Prop :=
  v = .absent ∨ ∃ n, v = .num n ∧ n.isInteger = true ∧ (allowNegative = true ∨ n.below .zero = false)

/-- A section is left out, or has named parts, all of them known settings. -/
def IsSection (known : List String) (allowNegative : Bool) (v : Value) : Prop :=
  v = .absent ∨ ∃ bare settings, v = .object bare settings ∧ (∀ key ∈ settings.map Prod.fst, key ∈ known) ∧
    ∀ key ∈ known, IsSetting allowNegative (Fields.read settings key)

/-- The number under a key of a section, or the standard one where it is left out. -/
def setting (entries : Fields) (name key : String) (fallback : Number) : Number :=
  ((Fields.read entries name).member key).number?.getD fallback

def rangeOf (entries : Fields) : IntRange :=
  { min := setting entries "int" "min" standard.int.min
    max := setting entries "int" "max" standard.int.max }

def limitsOf (entries : Fields) (name : String) (fallback : TextLimits) : TextLimits :=
  { maxLength := setting entries name "maxLength" fallback.maxLength
    maxEntries := setting entries name "maxEntries" fallback.maxEntries }

/-- The settings given, laid over the standard policy. -/
def ofSettings (entries : Fields) : PoolPolicy :=
  { int := rangeOf entries
    boolEntries := setting entries "bool" "maxEntries" standard.boolEntries
    string := limitsOf entries "string" standard.string
    identifier := limitsOf entries "identifier" standard.identifier }

/-- Known sections only, each well formed, and a range in order where one is given. -/
structure WellFormed (entries : Fields) : Prop where
  known : ∀ name ∈ entries.map Prod.fst, name ∈ ["int", "bool", "string", "identifier"]
  int : IsSection ["min", "max"] true (Fields.read entries "int")
  bool : IsSection ["maxEntries"] false (Fields.read entries "bool")
  string : IsSection ["maxLength", "maxEntries"] false (Fields.read entries "string")
  identifier : IsSection ["maxLength", "maxEntries"] false (Fields.read entries "identifier")
  ordered : Fields.read entries "int" ≠ .absent → (rangeOf entries).min.atMost (rangeOf entries).max = true

/-! ## Reading -/

section Reading

variable {settings entries : Fields} {bare : Bool} {path key name : String} {fallback n : Number}
  {allowNegative : Bool} {known : List String}

theorem rejectUnknown_eq_ok_iff {done : Unit} :
    rejectUnknown settings path known = .ok done ↔ ∀ key ∈ settings.map Prod.fst, key ∈ known := by
  unfold rejectUnknown
  split
  · next h =>
    rw [List.find?_eq_none] at h
    exact iff_of_true rfl (fun key hkey => by simpa using h key hkey)
  · next key h =>
    have hunknown : key ∉ known := by simpa using List.find?_some h
    exact iff_of_false nofun (fun hall => hunknown (hall key (List.mem_of_find?_eq_some h)))

theorem readInteger_eq_ok_iff : readInteger settings path key fallback allowNegative = .ok n ↔
    IsSetting allowNegative (Fields.read settings key) ∧ n = (Fields.read settings key).number?.getD fallback := by
  unfold readInteger
  split
  · next hread =>
    rw [hread]
    exact ⟨fun h => ⟨.inl rfl, (Except.ok.inj h).symm⟩, fun h => congrArg Except.ok h.2.symm⟩
  · next m hread =>
    have hsetting : IsSetting allowNegative (.scalar (.num m)) ↔
        m.isInteger = true ∧ (allowNegative = true ∨ m.below .zero = false) := by
      constructor
      · rintro (habsent | ⟨_, ⟨⟩, h⟩)
        · cases habsent
        · exact h
      · exact fun h => .inr ⟨m, rfl, h⟩
    rw [hread, hsetting]
    split
    · next hint => exact iff_of_false nofun (fun h => by simp [h.1.1] at hint)
    · next hint =>
      split
      · next hbelow =>
        simp only [Bool.and_eq_true, Bool.not_eq_true'] at hbelow
        exact iff_of_false nofun (fun h => by simp [hbelow] at h)
      · next hbelow =>
        simp only [Bool.and_eq_true, Bool.not_eq_true', not_and, Bool.not_eq_true] at hbelow
        refine ⟨fun h => ⟨⟨by simpa using hint, ?_⟩, (Except.ok.inj h).symm⟩, fun h => congrArg Except.ok h.2.symm⟩
        cases allowNegative with
        | true => exact .inl rfl
        | false => exact .inr (hbelow rfl)
  · next habsent hnumber =>
    refine iff_of_false nofun (fun ⟨hsetting, _⟩ => ?_)
    rcases hsetting with h | ⟨m, h, -⟩
    · exact habsent h
    · exact hnumber m h

/-- A section is left out or given; anything else is refused. -/
theorem readSection_cases (entries : Fields) (name : String) :
    (Fields.read entries name = .absent ∧ readSection entries name = .ok none) ∨
    (∃ bare settings, Fields.read entries name = .object bare settings ∧
      readSection entries name = .ok (some settings)) ∨
    ((∀ known allowNegative, ¬ IsSection known allowNegative (Fields.read entries name)) ∧
      ∃ fault, readSection entries name = .error fault) := by
  unfold readSection
  split
  · next h => exact .inl ⟨h, rfl⟩
  · next bare settings h => exact .inr (.inl ⟨bare, settings, h, rfl⟩)
  · next habsent hobject =>
    refine .inr (.inr ⟨fun known allowNegative hsection => ?_, _, rfl⟩)
    rcases hsection with h | ⟨bare, settings, h, -⟩
    · exact habsent h
    · exact hobject bare settings h

theorem isSection_object_iff : IsSection known allowNegative (.object bare settings) ↔
    (∀ key ∈ settings.map Prod.fst, key ∈ known) ∧ ∀ key ∈ known, IsSetting allowNegative (Fields.read settings key) := by
  constructor
  · rintro (habsent | ⟨_, _, ⟨⟩, h⟩)
    · cases habsent
    · exact h
  · exact fun h => .inr ⟨bare, settings, rfl, h⟩

theorem setting_of_absent (h : Fields.read entries name = .absent) : setting entries name key fallback = fallback := by
  rw [setting, h]
  rfl

theorem setting_of_object (h : Fields.read entries name = .object bare settings) :
    setting entries name key fallback = (Fields.read settings key).number?.getD fallback := by
  rw [setting, h]
  rfl

/-- Two settings of a section that has no others. -/
theorem readPair_eq_ok_iff {α : Type} {first second : String} {fallback' : Number} {next : Number → Number → Except Fault α}
    {result : α} (h : Fields.read entries name = .object bare settings) :
    (do
      rejectUnknown settings path [first, second]
      let a ← readInteger settings path first fallback allowNegative
      let b ← readInteger settings path second fallback' allowNegative
      next a b) = .ok result ↔
    IsSection [first, second] allowNegative (Fields.read entries name) ∧
      next (setting entries name first fallback) (setting entries name second fallback') = .ok result := by
  rw [h, isSection_object_iff, setting_of_object h, setting_of_object h]
  simp only [Fault.bind_eq_ok_iff, rejectUnknown_eq_ok_iff, readInteger_eq_ok_iff, List.forall_mem_cons]
  constructor
  · rintro ⟨_, hknown, _, ⟨hfirst, rfl⟩, _, ⟨hsecond, rfl⟩, hnext⟩
    exact ⟨⟨hknown, hfirst, hsecond, nofun⟩, hnext⟩
  · rintro ⟨⟨hknown, hfirst, hsecond, -⟩, hnext⟩
    exact ⟨(), hknown, _, ⟨hfirst, rfl⟩, _, ⟨hsecond, rfl⟩, hnext⟩

theorem standard_range : standard.int.min.isInteger = true ∧ standard.int.max.isInteger = true ∧
    standard.int.min.atMost standard.int.max = true := by
  decide +kernel

/-- The number that a well-formed section gives is a whole number, as the standard one is. -/
theorem isInteger_setting (h : IsSection known allowNegative (Fields.read entries name)) (hkey : key ∈ known)
    (hfallback : fallback.isInteger = true) : (setting entries name key fallback).isInteger = true := by
  rcases h with habsent | ⟨bare, settings, hobject, -, hall⟩
  · rwa [setting_of_absent habsent]
  · rw [setting_of_object hobject]
    rcases hall key hkey with habsent | ⟨m, hm, hint, -⟩
    · rwa [habsent]
    · rwa [hm]

theorem isCap_setting (h : IsSection known false (Fields.read entries name)) (hkey : key ∈ known)
    (hfallback : fallback.IsCap) : (setting entries name key fallback).IsCap := by
  rcases h with habsent | ⟨bare, settings, hobject, -, hall⟩
  · rwa [setting_of_absent habsent]
  · rw [setting_of_object hobject]
    rcases hall key hkey with habsent | ⟨m, hm, hint, hallowed⟩
    · rwa [habsent]
    · rw [hm]
      exact ⟨hint, hallowed.resolve_left Bool.false_ne_true⟩

end Reading

/-! ## Sections -/

section Sections

variable {entries : Fields} {name : String} {range : IntRange} {cap : Number} {limits fallback : TextLimits}

theorem resolveInt_eq_ok_iff : resolveInt entries standard.int = .ok range ↔
    IsSection ["min", "max"] true (Fields.read entries "int") ∧
      (Fields.read entries "int" ≠ .absent → (rangeOf entries).min.atMost (rangeOf entries).max = true) ∧
      range = rangeOf entries := by
  unfold resolveInt
  rcases readSection_cases entries "int" with ⟨habsent, hread⟩ | ⟨bare, settings, hobject, hread⟩ | ⟨hbad, _, hread⟩
  · have hrange : rangeOf entries = standard.int := by
      rw [rangeOf, setting_of_absent habsent, setting_of_absent habsent]
    rw [hread, hrange]
    exact ⟨fun h => ⟨.inl habsent, fun hgiven => absurd habsent hgiven, (Except.ok.inj h).symm⟩,
      fun h => congrArg Except.ok h.2.2.symm⟩
  · rw [hread]
    refine (readPair_eq_ok_iff hobject).trans (and_congr_right (fun hsection => ?_))
    have hgiven : Fields.read entries "int" ≠ .absent := by simp [hobject]
    have hordered : (rangeOf entries).min.atMost (rangeOf entries).max = true ↔
        (rangeOf entries).max.below (rangeOf entries).min = false :=
      Number.atMost_iff_of_isInteger (isInteger_setting hsection (by simp) standard_range.1)
        (isInteger_setting hsection (by simp) standard_range.2.1)
    rw [forall_prop_of_true hgiven, hordered]
    show (if (rangeOf entries).max.below (rangeOf entries).min = true then
        throw (Fault.invalidSetting "int.min" "must not exceed int.max") >>= fun _ => pure (rangeOf entries)
      else pure (rangeOf entries) : Except Fault IntRange) = .ok range ↔ _
    split
    · next hbelow => exact iff_of_false nofun (fun h => Bool.false_ne_true (h.1.symm.trans hbelow))
    · next hbelow =>
      rw [Bool.not_eq_true] at hbelow
      exact ⟨fun h => ⟨hbelow, (Except.ok.inj h).symm⟩, fun h => congrArg Except.ok h.2.symm⟩
  · rw [hread]
    exact iff_of_false nofun (fun h => hbad _ _ h.1)

theorem resolveBool_eq_ok_iff : resolveBool entries standard.boolEntries = .ok cap ↔
    IsSection ["maxEntries"] false (Fields.read entries "bool") ∧
      cap = setting entries "bool" "maxEntries" standard.boolEntries := by
  unfold resolveBool
  rcases readSection_cases entries "bool" with ⟨habsent, hread⟩ | ⟨bare, settings, hobject, hread⟩ | ⟨hbad, _, hread⟩
  · rw [hread, setting_of_absent habsent]
    exact ⟨fun h => ⟨.inl habsent, (Except.ok.inj h).symm⟩, fun h => congrArg Except.ok h.2.symm⟩
  · rw [hread, hobject, isSection_object_iff, setting_of_object hobject, List.forall_mem_singleton]
    show rejectUnknown settings "bool" ["maxEntries"] >>= (fun _ => _) = Except.ok cap ↔ _
    rw [Fault.bind_eq_ok_iff]
    simp only [rejectUnknown_eq_ok_iff, readInteger_eq_ok_iff, and_assoc]
    exact exists_const Unit
  · rw [hread]
    exact iff_of_false nofun (fun h => hbad _ _ h.1)

theorem resolveText_eq_ok_iff : resolveText entries name fallback = .ok limits ↔
    IsSection ["maxLength", "maxEntries"] false (Fields.read entries name) ∧ limits = limitsOf entries name fallback := by
  unfold resolveText
  rcases readSection_cases entries name with ⟨habsent, hread⟩ | ⟨bare, settings, hobject, hread⟩ | ⟨hbad, _, hread⟩
  · have hlimits : limitsOf entries name fallback = fallback := by
      rw [limitsOf, setting_of_absent habsent, setting_of_absent habsent]
    rw [hread, hlimits]
    exact ⟨fun h => ⟨.inl habsent, (Except.ok.inj h).symm⟩, fun h => congrArg Except.ok h.2.symm⟩
  · rw [hread]
    refine (readPair_eq_ok_iff hobject).trans (and_congr_right (fun _ => ?_))
    exact ⟨fun h => (Except.ok.inj h).symm, fun h => congrArg Except.ok h.symm⟩
  · rw [hread]
    exact iff_of_false nofun (fun h => hbad _ _ h.1)

end Sections

/-- Settings are accepted exactly if they are well formed, and then each of them is as given,
or as in the standard policy. -/
theorem resolve_eq_ok_iff {data : Value} {policy : PoolPolicy} : resolve data = .ok policy ↔
    ∃ bare entries, data = .object bare entries ∧ WellFormed entries ∧ policy = ofSettings entries := by
  cases data with
  | object bare entries =>
    have hown : (∃ bare' entries', Value.object bare entries = .object bare' entries' ∧ WellFormed entries' ∧
        policy = ofSettings entries') ↔ WellFormed entries ∧ policy = ofSettings entries := by
      constructor
      · rintro ⟨_, _, ⟨⟩, h⟩
        exact h
      · exact fun h => ⟨bare, entries, rfl, h⟩
    rw [hown, resolve]
    simp only [Fault.bind_eq_ok_iff, rejectUnknown_eq_ok_iff, resolveInt_eq_ok_iff, resolveBool_eq_ok_iff,
      resolveText_eq_ok_iff]
    constructor
    · rintro ⟨_, hknown, _, ⟨hint, hordered, rfl⟩, _, ⟨hbool, rfl⟩, _, ⟨hstring, rfl⟩, _, ⟨hidentifier, rfl⟩, hdone⟩
      exact ⟨⟨hknown, hint, hbool, hstring, hidentifier, hordered⟩, (Except.ok.inj hdone).symm⟩
    · rintro ⟨h, rfl⟩
      exact ⟨(), h.known, _, ⟨h.int, h.ordered, rfl⟩, _, ⟨h.bool, rfl⟩, _, ⟨h.string, rfl⟩, _,
        ⟨h.identifier, rfl⟩, rfl⟩
  | _ => exact iff_of_false nofun (fun ⟨_, _, h, _⟩ => nomatch h)

/-! ## The order of names -/

section Order

variable {v w : Value} {entries others : Fields} {name key : String} {fallback : Number} {known : List String}
  {allowNegative : Bool}

theorem isSetting_of_reordered (h : v.Reordered w) (hv : IsSetting allowNegative v) : w = v := by
  cases h with
  | refl => rfl
  | object =>
    rcases hv with habsent | ⟨_, hnum, -⟩
    · cases habsent
    · cases hnum

/-- A well-formed section that is listed in another order is well formed and has the same
settings. -/
theorem isSection_of_reordered (h : v.Reordered w) (hv : IsSection known allowNegative v) :
    IsSection known allowNegative w ∧ ∀ key ∈ known, w.member key = v.member key := by
  cases h with
  | refl => exact ⟨hv, fun _ _ => rfl⟩
  | object hnames hreads =>
    obtain ⟨hknown, hsettings⟩ := isSection_object_iff.1 hv
    have hsame : ∀ key ∈ known, Fields.read _ key = Fields.read _ key :=
      fun key hkey => isSetting_of_reordered (hreads key) (hsettings key hkey)
    refine ⟨isSection_object_iff.2 ⟨fun key hkey => hknown key ((hnames key).2 hkey), fun key hkey => ?_⟩, hsame⟩
    rw [hsame key hkey]
    exact hsettings key hkey

theorem absent_iff_of_reordered (h : v.Reordered w) : w = .absent ↔ v = .absent := by
  cases h with
  | refl => rfl
  | object => exact iff_of_false nofun nofun

theorem setting_congr (h : (Fields.read others name).member key = (Fields.read entries name).member key) :
    setting others name key fallback = setting entries name key fallback := by
  rw [setting, setting, h]

theorem limitsOf_congr {limits : TextLimits} (h : ∀ key ∈ ["maxLength", "maxEntries"],
      (Fields.read others name).member key = (Fields.read entries name).member key) :
    limitsOf others name limits = limitsOf entries name limits := by
  rw [limitsOf, limitsOf, setting_congr (h _ (by simp)), setting_congr (h _ (by simp))]

theorem WellFormed.reordered (h : WellFormed entries)
    (hnames : ∀ name, name ∈ entries.map Prod.fst ↔ name ∈ others.map Prod.fst)
    (hreads : ∀ name, (Fields.read entries name).Reordered (Fields.read others name)) :
    WellFormed others ∧ ofSettings others = ofSettings entries := by
  obtain ⟨hint, hints⟩ := isSection_of_reordered (hreads "int") h.int
  obtain ⟨hbool, hbools⟩ := isSection_of_reordered (hreads "bool") h.bool
  obtain ⟨hstring, hstrings⟩ := isSection_of_reordered (hreads "string") h.string
  obtain ⟨hidentifier, hidentifiers⟩ := isSection_of_reordered (hreads "identifier") h.identifier
  have hrange : rangeOf others = rangeOf entries := by
    rw [rangeOf, rangeOf, setting_congr (hints _ (by simp)), setting_congr (hints _ (by simp))]
  refine ⟨⟨fun name hname => h.known name ((hnames name).2 hname), hint, hbool, hstring, hidentifier, ?_⟩, ?_⟩
  · rw [hrange, Ne, absent_iff_of_reordered (hreads "int")]
    exact h.ordered
  · rw [ofSettings, ofSettings, hrange, setting_congr (hbools _ (by simp)), limitsOf_congr hstrings,
      limitsOf_congr hidentifiers]

/-- The order in which settings and sections are listed does not matter. -/
theorem resolve_of_reordered {data data' : Value} {policy : PoolPolicy} (h : data.Reordered data')
    (hresolve : resolve data = .ok policy) : resolve data' = .ok policy := by
  obtain ⟨bare, entries, rfl, hformed, rfl⟩ := resolve_eq_ok_iff.1 hresolve
  cases h with
  | refl => exact hresolve
  | object hnames hreads =>
    obtain ⟨hothers, hsame⟩ := hformed.reordered hnames hreads
    exact resolve_eq_ok_iff.2 ⟨bare, _, rfl, hothers, hsame.symm⟩

end Order

/-! ## Resolved policies -/

/-- A range of whole numbers in order, and caps that are whole numbers and not negative. -/
structure Consistent (policy : PoolPolicy) : Prop where
  min : policy.int.min.isInteger = true
  max : policy.int.max.isInteger = true
  ordered : policy.int.min.atMost policy.int.max = true
  boolEntries : policy.boolEntries.IsCap
  stringLength : policy.string.maxLength.IsCap
  stringEntries : policy.string.maxEntries.IsCap
  identifierLength : policy.identifier.maxLength.IsCap
  identifierEntries : policy.identifier.maxEntries.IsCap

theorem standard_consistent : standard.Consistent := by
  refine ⟨standard_range.1, standard_range.2.1, standard_range.2.2, ?_, ?_, ?_, ?_, ?_⟩ <;>
    constructor <;> decide +kernel

theorem WellFormed.consistent {entries : Fields} (h : WellFormed entries) : (ofSettings entries).Consistent where
  min := isInteger_setting h.int (by simp) standard_consistent.min
  max := isInteger_setting h.int (by simp) standard_consistent.max
  ordered := by
    by_cases habsent : Fields.read entries "int" = .absent
    · rw [ofSettings, rangeOf, setting_of_absent habsent, setting_of_absent habsent]
      exact standard_consistent.ordered
    · exact h.ordered habsent
  boolEntries := isCap_setting h.bool (by simp) standard_consistent.boolEntries
  stringLength := isCap_setting h.string (by simp) standard_consistent.stringLength
  stringEntries := isCap_setting h.string (by simp) standard_consistent.stringEntries
  identifierLength := isCap_setting h.identifier (by simp) standard_consistent.identifierLength
  identifierEntries := isCap_setting h.identifier (by simp) standard_consistent.identifierEntries

/-! ## Policies written down -/

def sectionOf (settings : List (String × Number)) : Value :=
  .object false (settings.map (fun p => (p.1, .num p.2)))

def sectionOfLimits (limits : TextLimits) : Value :=
  sectionOf [("maxLength", limits.maxLength), ("maxEntries", limits.maxEntries)]

/-- A policy written down as settings, all of them given. -/
def toSettings (policy : PoolPolicy) : Fields :=
  [("int", sectionOf [("min", policy.int.min), ("max", policy.int.max)]),
    ("bool", sectionOf [("maxEntries", policy.boolEntries)]),
    ("string", sectionOfLimits policy.string),
    ("identifier", sectionOfLimits policy.identifier)]

theorem ofSettings_toSettings (policy : PoolPolicy) : ofSettings policy.toSettings = policy := rfl

theorem isSection_sectionOf {settings : List (String × Number)} {allowNegative : Bool}
    (h : ∀ p ∈ settings, p.2.isInteger = true ∧ (allowNegative = true ∨ p.2.below .zero = false)) :
    IsSection (settings.map Prod.fst) allowNegative (sectionOf settings) := by
  refine isSection_object_iff.2 ⟨by simp, fun key hkey => ?_⟩
  rw [Fields.read, Fields.readOver, Fields.find?, List.find?_map, Option.map_map]
  rcases hfound : settings.find? _ with _ | p
  · obtain ⟨p, hp, rfl⟩ := List.mem_map.1 hkey
    exact absurd (List.find?_eq_none.1 hfound p hp) (by simp)
  · exact .inr ⟨p.2, rfl, h p (List.mem_of_find?_eq_some hfound)⟩

theorem isSection_sectionOfLimits {limits : TextLimits} (hlength : limits.maxLength.IsCap)
    (hentries : limits.maxEntries.IsCap) : IsSection ["maxLength", "maxEntries"] false (sectionOfLimits limits) :=
  isSection_sectionOf (by simp [hlength.isInteger, hlength.notBelow, hentries.isInteger, hentries.notBelow])

theorem Consistent.wellFormed {policy : PoolPolicy} (h : policy.Consistent) : WellFormed policy.toSettings where
  known := by simp [toSettings]
  int := isSection_sectionOf (by simp [h.min, h.max])
  bool := isSection_sectionOf (by simp [h.boolEntries.isInteger, h.boolEntries.notBelow])
  string := isSection_sectionOfLimits h.stringLength h.stringEntries
  identifier := isSection_sectionOfLimits h.identifierLength h.identifierEntries
  ordered := fun _ => h.ordered

theorem consistent_of_resolve {data : Value} {policy : PoolPolicy} (h : resolve data = .ok policy) :
    policy.Consistent := by
  obtain ⟨_, _, -, hformed, rfl⟩ := resolve_eq_ok_iff.1 h
  exact hformed.consistent

theorem resolve_toSettings_eq_ok_iff {policy : PoolPolicy} :
    resolve (.object false policy.toSettings) = .ok policy ↔ policy.Consistent :=
  ⟨consistent_of_resolve,
    fun h => resolve_eq_ok_iff.2 ⟨false, _, rfl, h.wellFormed, policy.ofSettings_toSettings.symm⟩⟩

/-- The lower end of the range is the first setting that is read. -/
theorem resolve_toSettings_of_min {policy : PoolPolicy} (h : policy.int.min.isInteger = false) :
    resolve (.object false policy.toSettings) = .error (.invalidSetting "int.min" "must be an integer") := by
  have hnames : rejectUnknown policy.toSettings "" sectionNames = .ok () :=
    rejectUnknown_eq_ok_iff.2 (by simp [toSettings, sectionNames])
  have hkeys : rejectUnknown [("min", .num policy.int.min), ("max", .num policy.int.max)] "int" ["min", "max"] =
      .ok () := rejectUnknown_eq_ok_iff.2 (by simp)
  have hmin : readInteger [("min", .num policy.int.min), ("max", .num policy.int.max)] "int" "min"
      standard.int.min true = .error (.invalidSetting "int.min" "must be an integer") := by
    show (if !policy.int.min.isInteger then _ else _) = _
    rw [h]
    rfl
  have hsection : readSection policy.toSettings "int" =
      .ok (some [("min", .num policy.int.min), ("max", .num policy.int.max)]) := rfl
  have hint : resolveInt policy.toSettings standard.int = .error (.invalidSetting "int.min" "must be an integer") := by
    rw [resolveInt, hsection, Fault.ok_bind]
    simp only [hkeys, hmin, Fault.ok_bind, Fault.error_bind]
  rw [resolve, hnames, Fault.ok_bind, hint, Fault.error_bind]

end PoolPolicy

open PoolPolicy in
/-- Settings are accepted exactly if they are well formed; the policy then has each setting as
given, or as in the standard policy, in whatever order they are listed. A policy that comes
about in this way has whole numbers in its range, in order, and caps that are whole numbers
and not negative. Exactly such policies, written down as settings, come back unchanged, and
so does every resolved policy. -/
theorem settings_are_resolved_exactly :
    (∀ data policy, resolve data = .ok policy ↔
      ∃ bare entries, data = .object bare entries ∧ WellFormed entries ∧ policy = ofSettings entries) ∧
    (∀ data data' policy, data.Reordered data' → resolve data = .ok policy → resolve data' = .ok policy) ∧
    (∀ data policy, resolve data = .ok policy → policy.Consistent) ∧
    (∀ policy, resolve (.object false policy.toSettings) = .ok policy ↔ policy.Consistent) ∧
    ∀ data policy, resolve data = .ok policy → resolve (.object false policy.toSettings) = .ok policy := by
  refine ⟨fun _ _ => resolve_eq_ok_iff, fun _ _ _ => resolve_of_reordered, fun _ _ => consistent_of_resolve,
    fun _ => resolve_toSettings_eq_ok_iff, fun data policy h => ?_⟩
  exact resolve_toSettings_eq_ok_iff.2 (consistent_of_resolve h)

namespace Halves

/-- A range from one half to three halves, and else the standard policy. -/
def policy : PoolPolicy :=
  { PoolPolicy.standard with int := { min := .ofRatio false 1 2, max := .ofRatio false 3 2 } }

/-- Its range is in order and its caps are whole numbers, and yet it is refused. -/
theorem fractional_range_is_refused :
    policy.int.min.atMost policy.int.max = true ∧ policy.boolEntries.IsCap ∧
    policy.string.maxLength.IsCap ∧ policy.string.maxEntries.IsCap ∧
    policy.identifier.maxLength.IsCap ∧ policy.identifier.maxEntries.IsCap ∧
    PoolPolicy.resolve (.object false policy.toSettings) =
      .error (.invalidSetting "int.min" "must be an integer") := by
  have h := PoolPolicy.standard_consistent
  exact ⟨by decide +kernel, h.boolEntries, h.stringLength, h.stringEntries, h.identifierLength,
    h.identifierEntries, PoolPolicy.resolve_toSettings_of_min (by decide +kernel)⟩

end Halves

end SyntaxForest
