/-
The registry of backends: each under its own name, one of them the default. A request that names no
backend, or one that is not registered, goes to the default.
-/
import Polyglot.Backend

namespace Polyglot

/-- Backends by name, and the default one. -/
structure Registry where
  /-- The names that backends are registered under, each once, with the backends. -/
  backends : List (String × Backend)
  default : Backend

namespace Registry

/-- The registry of one backend, which is the default. -/
def ofBackend (backend : Backend) : Registry := ⟨[(backend.name, backend)], backend⟩

/-- The backend registered under a name. -/
def find? (r : Registry) (name : String) : Option Backend := r.backends.lookup name

/-- Puts a backend under a name, in the place of the one that is there, or else at the end. -/
def put (name : String) (backend : Backend) : List (String × Backend) → List (String × Backend)
  | [] => [(name, backend)]
  | (key, b) :: rest =>
    if key == name then (key, backend) :: rest else (key, b) :: put name backend rest

/-- Registers a backend under its own name, in the place of an earlier one of that name. -/
def register (r : Registry) (backend : Backend) : Registry :=
  ⟨put backend.name backend r.backends,
    if r.default.name == backend.name then backend else r.default⟩

theorem lookup_cons (key name : String) (backend : Backend) (backends : List (String × Backend)) :
    ((name, backend) :: backends).lookup key =
      if name = key then some backend else backends.lookup key := by
  rw [List.lookup_cons]
  by_cases h : name = key
  · simp [h]
  · simp [h, beq_false_of_ne (Ne.symm h)]

theorem lookup_put (key name : String) (backend : Backend) (backends : List (String × Backend)) :
    (put name backend backends).lookup key =
      if name = key then some backend else backends.lookup key := by
  induction backends with
  | nil => exact lookup_cons key name backend []
  | cons entry rest ih =>
    obtain ⟨k, b⟩ := entry
    rw [put]
    by_cases h : k = name
    · rw [if_pos (by simpa using h), lookup_cons, lookup_cons, h]
      by_cases hkey : name = key <;> simp [hkey]
    · rw [if_neg (by simpa using h), lookup_cons, lookup_cons, ih]
      by_cases hk : k = key
      · rw [if_pos hk, if_pos hk, if_neg (hk ▸ Ne.symm h)]
      · rw [if_neg hk, if_neg hk]

theorem find?_ofBackend (backend : Backend) (name : String) :
    (ofBackend backend).find? name = if backend.name = name then some backend else none :=
  lookup_cons name backend.name backend []

/-- A registered backend is found under its name, and the others are where they were. -/
theorem find?_register (r : Registry) (backend : Backend) (name : String) :
    (r.register backend).find? name =
      if backend.name = name then some backend else r.find? name :=
  lookup_put name backend.name backend r.backends

/-- Makes the backend registered under a name the default. If there is none the registry stays as it
is. -/
def setDefault (r : Registry) (selector : String) : Registry × Except Failure Unit :=
  match r.find? selector with
  | some backend => (⟨r.backends, backend⟩, .ok ())
  | none => (r, .error (.unknownDefaultBackend selector))

/-- The backend for a selector, and what there is to log about the choice. -/
def resolve (r : Registry) : Option String → Backend × List Event
  | none => (r.default, [])
  | some selector =>
    match r.find? selector with
    | some backend => (backend, [])
    | none => (r.default, [.unknownSelector selector r.default.name])

/-- The registered names in ascending order. -/
def selectors (r : Registry) : List String :=
  (r.backends.map (·.1)).mergeSort fun a b => decide (a ≤ b)

/-- The registry of the two built-in backends, and what there is to log about its making. -/
def standard (grammars : Grammars) (limits : Ranking.Limits) (defaultSelector : String) :
    Except Failure Registry × List Event :=
  match Backend.loadRanking grammars limits with
  | .error f => (.error f, [])
  | .ok (ranking, events) =>
    let (registry, result) :=
      ((ofBackend ranking).register Backend.rules).setDefault defaultSelector
    (result.map fun _ => registry, events)

end Registry

end Polyglot
