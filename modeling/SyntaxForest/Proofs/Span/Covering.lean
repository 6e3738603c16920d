import Mathlib.Order.Bounds.Basic
import SyntaxForest.Span
/-!
# The covering span

In the order of places negative zero comes right before zero. A NaN gets a place before all
numbers among the starts of spans, and one after them among the ends (`Number.low`,
`Number.high`). The covering span has the first of the given starts and the last of the
given ends (`Tight`): a single span has its own, widening joins what is tight
(`Tight.append`), and so the loop keeps it. Such bounds are determined by which spans there
are, in whatever order and grouping, and make up the least span that encloses them:
`covering_is_the_least_enclosure`.
-/

namespace SyntaxForest

/-! ## Numbers in order -/

namespace Number

variable {x y : Number} {a b atNaN : Int}

theorem place?_injective : Function.Injective place? := by
  intro x y h
  cases x with
  | nan => cases y with
    | nan => rfl
    | real => cases h
  | real negative size => cases y with
    | nan => cases h
    | real negative' size' =>
      have hplace := Option.some.inj h
      obtain ⟨rfl, hsize⟩ : negative = negative' ∧ size.val = size'.val := by
        cases negative <;> cases negative' <;> simp at hplace ⊢ <;> omega
      rw [Fin.ext hsize]

/-- The places reach from negative infinity to infinity. -/
theorem bounds_of_place? (h : x.place? = some a) : -(topSize + 1) ≤ a ∧ a ≤ topSize := by
  cases x with
  | nan => cases h
  | real negative size =>
    obtain rfl := Option.some.inj h
    cases negative <;> simp <;> omega

/-- Numbers in their places are in numeric order. -/
theorem atMost_of_place? (hx : x.place? = some a) (hy : y.place? = some b) (h : a ≤ b) : x.atMost y = true := by
  cases x with
  | nan => cases hx
  | real negative size => cases y with
    | nan => cases hy
    | real negative' size' =>
      obtain rfl := Option.some.inj hx
      obtain rfl := Option.some.inj hy
      cases negative <;> cases negative' <;> simp [atMost, compareBy, rank?] at h ⊢ <;> omega

theorem exists_place? (hx : x ≠ .nan) : ∃ a, x.place? = some a := by
  cases x with
  | nan => exact absurd rfl hx
  | real => exact ⟨_, rfl⟩

/-- Position in the order of places, when NaN is given a place as well. -/
def placeOr (atNaN : Int) (x : Number) : Int := x.place?.getD atNaN

theorem placeOr_injective (hfree : ∀ x : Number, x.place? ≠ some atNaN) : Function.Injective (placeOr atNaN) := by
  intro x y h
  refine place?_injective ?_
  rcases hx : x.place? with _ | a <;> rcases hy : y.place? with _ | b <;>
    simp only [placeOr, hx, hy, Option.getD_none, Option.getD_some] at h
  · rfl
  · exact absurd (h ▸ hy) (hfree y)
  · exact absurd (h ▸ hx) (hfree x)
  · rw [h]

theorem placeOr_lesser (hfirst : ∀ {x : Number} {a}, x.place? = some a → atNaN ≤ a) (x y : Number) :
    (x.lesser y).placeOr atNaN = min (x.placeOr atNaN) (y.placeOr atNaN) := by
  rcases hx : x.place? with _ | a <;> rcases hy : y.place? with _ | b
  · simp [lesser, placeOr, hx, hy]
  · simp [lesser, placeOr, hx, hy, hfirst hy]
  · simp [lesser, placeOr, hx, hy, hfirst hx]
  · rcases lt_or_ge b a with hlt | hge
    · simp [lesser, placeOr, hx, hy, hlt, hlt.le]
    · simp [lesser, placeOr, hx, hy, Int.not_lt.2 hge, hge]

theorem placeOr_greater (hlast : ∀ {x : Number} {a}, x.place? = some a → a ≤ atNaN) (x y : Number) :
    (x.greater y).placeOr atNaN = max (x.placeOr atNaN) (y.placeOr atNaN) := by
  rcases hx : x.place? with _ | a <;> rcases hy : y.place? with _ | b
  · simp [greater, placeOr, hx, hy]
  · simp [greater, placeOr, hx, hy, hlast hy]
  · simp [greater, placeOr, hx, hy, hlast hx]
  · rcases lt_or_ge a b with hlt | hge
    · simp [greater, placeOr, hx, hy, hlt, hlt.le]
    · simp [greater, placeOr, hx, hy, Int.not_lt.2 hge, hge]

theorem atMost_of_placeOr_le (hx : x ≠ .nan) (hy : y ≠ .nan) (h : x.placeOr atNaN ≤ y.placeOr atNaN) :
    x.atMost y = true := by
  obtain ⟨a, ha⟩ := exists_place? hx
  obtain ⟨b, hb⟩ := exists_place? hy
  rw [placeOr, placeOr, ha, hb] at h
  exact atMost_of_place? ha hb h

/-- A number's place among the starts of spans: NaN is before negative infinity. -/
def low (x : Number) : Int := x.placeOr (-(topSize + 2))

/-- A number's place among the ends of spans: NaN is after infinity. -/
def high (x : Number) : Int := x.placeOr (topSize + 1)

theorem low_injective : Function.Injective low := by
  refine placeOr_injective (fun x h => ?_)
  have := bounds_of_place? h
  omega

theorem high_injective : Function.Injective high := by
  refine placeOr_injective (fun x h => ?_)
  have := bounds_of_place? h
  omega

theorem low_lesser (x y : Number) : (x.lesser y).low = min x.low y.low := by
  refine placeOr_lesser (fun h => ?_) x y
  have := bounds_of_place? h
  omega

theorem high_greater (x y : Number) : (x.greater y).high = max x.high y.high := by
  refine placeOr_greater (fun h => ?_) x y
  have := bounds_of_place? h
  omega

end Number

namespace Span

variable {c d : Span} {spans seen xs ys : List Span}

/-! ## Tight bounds -/

/-- The places of the starts of some spans. -/
def starts (spans : List Span) : Set Int := {place | ∃ s ∈ spans, s.start.low = place}

/-- The places of the ends of some spans. -/
def stops (spans : List Span) : Set Int := {place | ∃ s ∈ spans, s.stop.high = place}

theorem starts_append (xs ys : List Span) : starts (xs ++ ys) = starts xs ∪ starts ys := by
  ext place
  simp [starts, or_and_right, exists_or]

theorem stops_append (xs ys : List Span) : stops (xs ++ ys) = stops xs ∪ stops ys := by
  ext place
  simp [stops, or_and_right, exists_or]

/-- The bounds of a span are the first start and the last end of some spans. -/
structure Tight (spans : List Span) (c : Span) : Prop where
  start : IsLeast (starts spans) c.start.low
  stop : IsGreatest (stops spans) c.stop.high

theorem tight_singleton (s : Span) : Tight [s] s := by
  constructor
  · simp [starts, IsLeast, lowerBounds]
  · simp [stops, IsGreatest, upperBounds]

theorem Tight.append (hx : Tight xs c) (hy : Tight ys d) : Tight (xs ++ ys) (c.widen d) := by
  constructor
  · rw [starts_append, widen, Number.low_lesser]
    exact hx.start.union hy.start
  · rw [stops_append, widen, Number.high_greater]
    exact hx.stop.union hy.stop

/-- The loop: what has been seen is tight, and stays so with every span that is added. -/
theorem Tight.foldl_widen (h : Tight seen c) (rest : List Span) :
    Tight (seen ++ rest) (rest.foldl widen c) := by
  induction rest generalizing seen c with
  | nil => rwa [List.append_nil]
  | cons s rest ih =>
    rw [List.append_cons]
    exact ih (h.append (tight_singleton s))

theorem tight_covering (h : spans ≠ []) : Tight spans (covering spans) := by
  cases spans with
  | nil => exact absurd rfl h
  | cons first rest => exact (tight_singleton first).foldl_widen rest

-- a NaN among the ends takes their place, and leaves the starts alone
example : covering [⟨4, 10, .nan⟩, ⟨4, 3, 5⟩] = ⟨4, 3, .nan⟩ := by decide +kernel

/-- The very same bounds: the sign of a zero counts, and NaN is the same as itself. -/
def SameRange (a b : Span) : Prop := a.start = b.start ∧ a.stop = b.stop

theorem SameRange.eq (h : c.SameRange d) (hsource : c.source = d.source) : c = d := by
  cases c
  cases d
  rw [mk.injEq]
  exact ⟨hsource, h.1, h.2⟩

theorem Tight.sameRange (h : Tight spans c) (h' : Tight spans d) : c.SameRange d :=
  ⟨Number.low_injective (h.start.unique h'.start), Number.high_injective (h.stop.unique h'.stop)⟩

/-- Only which spans there are matters, not their order. -/
theorem Tight.congr (h : Tight xs c) (hmem : ∀ s, s ∈ xs ↔ s ∈ ys) : Tight ys c := by
  have hstarts : starts xs = starts ys := by simp only [starts, hmem]
  have hstops : stops xs = stops ys := by simp only [stops, hmem]
  exact ⟨hstarts ▸ h.start, hstops ▸ h.stop⟩

theorem Tight.exists_start (h : Tight spans c) : ∃ s ∈ spans, s.start = c.start := by
  obtain ⟨s, hs, heq⟩ := h.start.1
  exact ⟨s, hs, Number.low_injective heq⟩

theorem Tight.exists_stop (h : Tight spans c) : ∃ s ∈ spans, s.stop = c.stop := by
  obtain ⟨s, hs, heq⟩ := h.stop.1
  exact ⟨s, hs, Number.high_injective heq⟩

/-! ## Enclosing -/

/-- A span encloses another one: it starts where that one does or before, and ends where it
does or after. This compares numbers, so the two zeros are one, and a NaN encloses nothing. -/
def Encloses (a b : Span) : Prop := a.start.atMost b.start = true ∧ b.stop.atMost a.stop = true

/-- Both ends are numbers. Nothing is asked of the source. -/
def Definite (s : Span) : Prop := s.start ≠ .nan ∧ s.stop ≠ .nan

instance : DecidablePred Definite := fun s => inferInstanceAs (Decidable (s.start ≠ .nan ∧ s.stop ≠ .nan))

theorem Tight.encloses (h : Tight spans c) (definite : ∀ s ∈ spans, s.Definite) {s : Span} (hs : s ∈ spans) :
    c.Encloses s := by
  obtain ⟨a, ha, hstart⟩ := h.exists_start
  obtain ⟨b, hb, hstop⟩ := h.exists_stop
  constructor
  · exact Number.atMost_of_placeOr_le (hstart ▸ (definite a ha).1) (definite s hs).1 (h.start.2 ⟨s, hs, rfl⟩)
  · exact Number.atMost_of_placeOr_le (definite s hs).2 (hstop ▸ (definite b hb).2) (h.stop.2 ⟨s, hs, rfl⟩)

/-- What encloses the spans that have the bounds encloses the bounds. -/
theorem Tight.enclosed (h : Tight spans c) (henclose : ∀ s ∈ spans, d.Encloses s) : d.Encloses c := by
  obtain ⟨a, ha, hstart⟩ := h.exists_start
  obtain ⟨b, hb, hstop⟩ := h.exists_stop
  exact ⟨hstart ▸ (henclose a ha).1, hstop ▸ (henclose b hb).2⟩

/-! ## The covering span -/

theorem source_covering (first : Span) (rest : List Span) : (covering (first :: rest)).source = first.source := by
  rw [covering]
  induction rest generalizing first with
  | nil => rfl
  | cons s rest ih => exact ih (first.widen s)

theorem covering_perm (h : xs.Perm ys) : (covering xs).SameRange (covering ys) := by
  by_cases hx : xs = []
  · subst hx
    rw [List.nil_perm.1 h]
    exact ⟨rfl, rfl⟩
  · have hy : ys ≠ [] := fun hnil => hx (List.perm_nil.1 (hnil ▸ h))
    exact ((tight_covering hx).congr (fun _ => h.mem_iff)).sameRange (tight_covering hy)

theorem covering_append (hx : xs ≠ []) (hy : ys ≠ []) :
    covering (xs ++ ys) = covering [covering xs, covering ys] := by
  have hall : Tight (xs ++ ys) (covering (xs ++ ys)) := tight_covering (List.append_ne_nil_of_left_ne_nil hx ys)
  have hparts : Tight (xs ++ ys) (covering [covering xs, covering ys]) :=
    (tight_covering hx).append (tight_covering hy)
  refine (hall.sameRange hparts).eq ?_
  obtain ⟨first, rest, rfl⟩ := List.exists_cons_of_ne_nil hx
  rw [List.cons_append, source_covering, source_covering, source_covering]

/-- The covering span of some spans whose ends are numbers encloses each of them, and every
span that does so encloses it. With or without NaN, its bounds do not depend on the order of
the spans; covering two parts first and then the two results is covering all at once; and it
is in the source of the first span. -/
theorem covering_is_the_least_enclosure :
    (∀ spans, spans ≠ [] → (∀ s ∈ spans, s.Definite) →
      (∀ s ∈ spans, (covering spans).Encloses s) ∧
      ∀ d : Span, (∀ s ∈ spans, d.Encloses s) → d.Encloses (covering spans)) ∧
    (∀ xs ys, xs.Perm ys → (covering xs).SameRange (covering ys)) ∧
    (∀ xs ys, xs ≠ [] → ys ≠ [] → covering (xs ++ ys) = covering [covering xs, covering ys]) ∧
    ∀ first rest, (covering (first :: rest)).source = first.source := by
  refine ⟨fun spans hne definite => ?_, fun _ _ => covering_perm, fun _ _ => covering_append, source_covering⟩
  have tight := tight_covering hne
  exact ⟨fun _ hs => tight.encloses definite hs, fun _ henclose => tight.enclosed henclose⟩

/-- The first span ends before it starts, at infinity; the others have bounds at and below
zero. Of the two zeros the negative one is the start. -/
theorem covering_of_unruly_spans :
    let spans : List Span := [⟨1, .infinity, .negativeZero⟩, ⟨2, .zero, .ofInt (-5)⟩,
      ⟨3, .negativeZero, .negativeInfinity⟩]
    (∀ s ∈ spans, s.Definite) ∧ (∀ s ∈ spans, (covering spans).Encloses s) ∧
      covering spans = ⟨1, .negativeZero, .negativeZero⟩ := by
  intro spans
  have definite : ∀ s ∈ spans, s.Definite := by decide +kernel
  obtain ⟨hencloses, -⟩ := covering_is_the_least_enclosure.1 spans (List.cons_ne_nil _ _) definite
  exact ⟨definite, hencloses, by decide +kernel⟩

end Span

end SyntaxForest
