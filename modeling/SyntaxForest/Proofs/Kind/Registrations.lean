import SyntaxForest.Proofs.Kind.Legality
/-!
# Registrations

Declarations of kinds and registrations of hand-written classes, in any order and in any
registries. One call either fails and leaves the catalog as it was, or adds one entry at the
end of one registry (`Registering.perform_cases`); so a registry lists what succeeded in it
(`Catalog.entries_after`), each name once, and keeps it.
-/

namespace SyntaxForest

/-- A call that asks for a registration in the registry of a name. -/
inductive Registering where
  | declare (registry : Option String) (d : Declaration)
  | register (registry : Option String) (kind : String) (nodeClass : NodeClass)

namespace Registering

def registry : Registering → Option String
  | declare registry _ => registry
  | register registry _ _ => registry

/-- What the registry gains if the call succeeds. -/
def entry : Registering → String × NodeClass
  | declare _ d => (d.name, d.strategy.nodeClass)
  | register _ kind nodeClass => (kind, nodeClass)

def perform (c : Catalog) : Registering → Except Fault Unit × Catalog
  | declare registry d => ((c.declare registry d).1.map (fun _ => ()), (c.declare registry d).2)
  | register registry kind nodeClass => c.register registry kind nodeClass

/-- What a call can be refused for: the faults of schemas, and those of registries. -/
def codes : List FaultCode :=
  [.reservedField, .invalidKindName, .fieldMismatch, .unfitStrategy, .incompleteKind, .duplicateKind]

/-- A fault that a call can be refused with. -/
def Refuses (fault : Fault) : Prop := ∃ code ∈ codes, ∃ context, fault = .ofCode code context

end Registering

namespace Catalog

/-- The catalog after calls. -/
def after (c : Catalog) (calls : List Registering) : Catalog :=
  calls.foldl (fun c call => (call.perform c).2) c

/-- The calls that succeed, one after the other. -/
def succeeded (c : Catalog) : List Registering → List Registering
  | [] => []
  | call :: rest =>
    match call.perform c with
    | (.ok _, later) => call :: succeeded later rest
    | (.error _, later) => succeeded later rest

/-- What the calls have registered in the registry of a name, oldest first. -/
def registered (c : Catalog) (calls : List Registering) (name : Option String) :
    List (String × NodeClass) :=
  ((c.succeeded calls).filter (·.registry = name)).map Registering.entry

theorem after_append (c : Catalog) (calls more : List Registering) :
    c.after (calls ++ more) = (c.after calls).after more := List.foldl_append

end Catalog

/-! ## One registration -/

namespace Registry

variable {r s : Registry} {kind : String} {nodeClass : NodeClass}

theorem of_register (h : r.register kind nodeClass = .ok s) :
    r.has kind = false ∧ s.entries = r.entries ++ [(kind, nodeClass)] := by
  unfold register at h
  split at h
  · cases h
  · split at h
    · cases h
    · next hfree =>
      cases h
      exact ⟨Bool.eq_false_iff.2 hfree, rfl⟩

theorem refuses_of_register {fault : Fault} (h : r.register kind nodeClass = .error fault) :
    Registering.Refuses fault := by
  unfold register at h
  split at h
  · cases h
    exact ⟨.incompleteKind, by decide, _, rfl⟩
  · split at h
    · cases h
      exact ⟨.duplicateKind, by decide, _, rfl⟩
    · cases h

end Registry

namespace Declaration

variable {d : Declaration} {id : KindId} {r : Registry} {fault : Fault}

/-- Whatever check refuses a declaration, the fault is one of schemas or registries. -/
theorem refuses_of_accept (h : d.accept id r = .error fault) : Registering.Refuses fault := by
  obtain ⟨-, check, -, -, -, hreports⟩ := (Check.settled_accept d id r).error_iff.1 h
  obtain ⟨context, rfl⟩ := hreports.code
  exact ⟨check.code, by cases check <;> decide, context, rfl⟩

end Declaration

/-! ## One call -/

namespace Catalog

variable {c : Catalog}

theorem registry_setRegistry (c : Catalog) (name other : Option String) (r : Registry) :
    (c.setRegistry name r).registry other = if name = other then r else c.registry other := by
  by_cases h : name = other
  · simp [setRegistry, registry, h]
  · have hkept : ∀ l : List (Option String × Registry),
        (l.filter (·.1 != name)).find? (·.1 == other) = l.find? (·.1 == other) := by
      intro l
      rw [List.find?_filter]
      congr 1
      funext p
      by_cases hp : p.1 = other
      · simp [hp, Ne.symm h]
      · simp [hp]
    simp [setRegistry, registry, h, hkept]

end Catalog

namespace Registering

variable {c : Catalog}

/-- What a call that succeeds does to the registries: one of them gains one entry, under a
name that it did not have. -/
structure Files (c later : Catalog) (call : Registering) : Prop where
  free : (c.registry call.registry).has call.entry.1 = false
  entries : ∀ name, (later.registry name).entries =
    (c.registry name).entries ++ if call.registry = name then [call.entry] else []

theorem files_of_register {later : Catalog} {call : Registering} {s : Registry}
    (h : (c.registry call.registry).register call.entry.1 call.entry.2 = .ok s)
    (hlater : ∀ name, later.registry name = if call.registry = name then s else c.registry name) :
    Files c later call := by
  obtain ⟨hfree, hentries⟩ := Registry.of_register h
  refine ⟨hfree, fun name => ?_⟩
  rw [hlater]
  split
  · next hname => rw [← hname, hentries]
  · simp

/-- A call is refused and changes nothing, or registers what it asks for. -/
theorem perform_cases (c : Catalog) (call : Registering) :
    (∃ fault, call.perform c = (.error fault, c) ∧ Refuses fault) ∨
      ∃ later, call.perform c = (.ok (), later) ∧ Files c later call := by
  cases call with
  | declare name d =>
    rcases haccept : d.accept ⟨c.kindCount⟩ (c.registry name) with fault | ⟨k, r⟩
    · refine .inl ⟨fault, ?_, Declaration.refuses_of_accept haccept⟩
      simp [perform, Catalog.declare, haccept, Except.map]
    · refine .inr ⟨{ c.setRegistry name r with kindCount := c.kindCount + 1 }, ?_, ?_⟩
      · simp [perform, Catalog.declare, haccept, Except.map]
      · exact files_of_register (Declaration.accepted haccept).register
          (fun other => c.registry_setRegistry name other r)
  | register name kind nodeClass =>
    rcases hregister : (c.registry name).register kind nodeClass with fault | r
    · refine .inl ⟨fault, ?_, Registry.refuses_of_register hregister⟩
      simp [perform, Catalog.register, hregister]
    · refine .inr ⟨c.setRegistry name r, ?_, ?_⟩
      · simp [perform, Catalog.register, hregister]
      · exact files_of_register hregister (fun other => c.registry_setRegistry name other r)

theorem Files.nodup_kinds {later : Catalog} {call : Registering} (h : Files c later call)
    (distinct : ∀ name, (c.registry name).kinds.Nodup) (name : Option String) :
    (later.registry name).kinds.Nodup := by
  rw [Registry.kinds, h.entries, List.map_append]
  split
  · next hname =>
    have hnew : call.entry.1 ∉ (c.registry name).kinds := by
      rw [← hname, ← Registry.has_iff, h.free]
      exact Bool.false_ne_true
    refine List.nodup_append.2 ⟨distinct name, by simp, fun kind hkind other hother heq => ?_⟩
    rw [List.map_singleton, List.mem_singleton] at hother
    exact hnew (hother ▸ heq ▸ hkind)
  · rw [List.map_nil, List.append_nil]
    exact distinct name

end Registering

/-! ## Sequences of calls -/

namespace Catalog

variable {c : Catalog}

theorem registered_cons_of_error {call : Registering} {fault : Fault} {later : Catalog}
    (h : call.perform c = (.error fault, later)) (rest : List Registering) (name : Option String) :
    c.registered (call :: rest) name = later.registered rest name := by
  rw [registered, succeeded, h]
  rfl

theorem registered_cons_of_ok {call : Registering} {later : Catalog} (h : call.perform c = (.ok (), later))
    (rest : List Registering) (name : Option String) : c.registered (call :: rest) name =
      (if call.registry = name then [call.entry] else []) ++ later.registered rest name := by
  rw [registered, succeeded, h]
  by_cases hname : call.registry = name <;> simp [registered, hname]

/-- A registry holds what it held before the calls, and then what they registered in it. -/
theorem entries_after (c : Catalog) (calls : List Registering) (name : Option String) :
    ((c.after calls).registry name).entries = (c.registry name).entries ++ c.registered calls name := by
  induction calls generalizing c with
  | nil => simp [after, registered, succeeded]
  | cons call rest ih =>
    rw [after, List.foldl_cons]
    rcases Registering.perform_cases c call with ⟨fault, hrun, -⟩ | ⟨later, hrun, hfiles⟩
    · rw [registered_cons_of_error hrun, hrun]
      exact ih c
    · rw [registered_cons_of_ok hrun, hrun, ← List.append_assoc, ← hfiles.entries]
      exact ih later

theorem nodup_kinds_after (distinct : ∀ name, (c.registry name).kinds.Nodup) (calls : List Registering)
    (name : Option String) : ((c.after calls).registry name).kinds.Nodup := by
  induction calls generalizing c with
  | nil => exact distinct name
  | cons call rest ih =>
    rw [after, List.foldl_cons]
    rcases Registering.perform_cases c call with ⟨fault, hrun, -⟩ | ⟨later, hrun, hfiles⟩
    · rw [hrun]
      exact ih distinct
    · rw [hrun]
      exact ih (hfiles.nodup_kinds distinct)

/-- Later calls leave in a registry what is there, at its place. -/
theorem kinds_prefix_after (c : Catalog) (calls : List Registering) (name : Option String) :
    (c.registry name).kinds <+: ((c.after calls).registry name).kinds := by
  rw [Registry.kinds, Registry.kinds, entries_after, List.map_append]
  exact List.prefix_append _ _

theorem get?_after {kind : String} {name : Option String} (h : kind ∈ (c.registry name).kinds)
    (calls : List Registering) :
    ((c.after calls).registry name).get? kind = (c.registry name).get? kind := by
  obtain ⟨p, hp, rfl⟩ := List.mem_map.1 h
  have hfound : ((c.registry name).entries.find? (·.1 == p.1)).isSome = true := by
    rw [List.find?_isSome]
    exact ⟨p, hp, by simp⟩
  rw [Registry.get?, Registry.get?, Fields.find?, Fields.find?, entries_after, List.find?_append,
    Option.or_of_isSome hfound]

end Catalog

/-- After any calls, declarations of all strategies and registrations of hand-written classes
in any registries, a registry lists the kinds whose registration in it succeeded, in order and
each once; a kind is found exactly if it is listed, under the class it was first registered
with, and further calls change nothing of it. A call that fails leaves the whole catalog as it
was; one that succeeds adds its entry at the end of its registry. -/
theorem registries_list_what_succeeded (calls more : List Registering) (name : Option String) :
    let c := Catalog.after {} calls
    let made := Catalog.registered {} calls name
    let later := Catalog.after {} (calls ++ more)
    (c.registry name).kinds = made.map Prod.fst ∧ (c.registry name).kinds.Nodup ∧
      (c.registry name).size = (c.registry name).kinds.length ∧
      (∀ kind, (c.registry name).has kind = true ↔ kind ∈ (c.registry name).kinds) ∧
      (∀ kind, (c.registry name).get? kind = (made.find? (·.1 == kind)).map Prod.snd) ∧
      (c.registry name).kinds <+: (later.registry name).kinds ∧
      (∀ kind ∈ (c.registry name).kinds,
        (later.registry name).get? kind = (c.registry name).get? kind) ∧
      ∀ call : Registering, match call.perform c with
        | (.error fault, unchanged) => unchanged = c ∧ Registering.Refuses fault
        | (.ok _, grown) => Registering.Files c grown call := by
  intro c made later
  have hentries : (c.registry name).entries = made := Catalog.entries_after {} calls name
  have hlater : later = c.after more := Catalog.after_append {} calls more
  refine ⟨by rw [Registry.kinds, hentries], ?_, by simp [Registry.size, Registry.kinds],
    fun kind => Registry.has_iff, fun kind => by rw [Registry.get?, Fields.find?, hentries], ?_, ?_, ?_⟩
  · exact @Catalog.nodup_kinds_after {} (fun _ => List.nodup_nil) calls name
  · rw [hlater]
    exact c.kinds_prefix_after more name
  · rw [hlater]
    exact fun kind hkind => Catalog.get?_after hkind more
  · intro call
    rcases Registering.perform_cases c call with ⟨fault, hrun, hrefuses⟩ | ⟨grown, hrun, hfiles⟩
    · rw [hrun]
      exact ⟨rfl, hrefuses⟩
    · rw [hrun]
      exact hfiles

namespace Refused

/-- A pooled kind under a name that a category does not fit, then by hand, then once more. -/
def calls : List Registering :=
  let lit : Declaration :=
    { name := "Lit", strategy := .pooled, table := [⟨"value", .scalar .int false⟩], families := []
      display := none, category := some "bool" }
  [.declare none lit, .register none "Lit" .graph, .declare none { lit with category := none },
    .declare (some "other") { lit with category := none }]

example : Catalog.registered {} calls none = [("Lit", .graph)] ∧
    Catalog.registered {} calls (some "other") = [("Lit", Strategy.pooled.nodeClass)] := by decide

end Refused

end SyntaxForest
