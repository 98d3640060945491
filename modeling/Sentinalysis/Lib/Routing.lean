/-
# Sentinalysis.Lib.Routing — from a method and a path to a handler.

What is registered first is asked first.  A scope takes every request under its root, also one that
none of its routes is for; middleware around a scope is around all that the scope serves.
-/
import Mathlib.Data.List.Basic

namespace Sentinalysis.Lib.Routing

universe u v

/-- A path, by its segments. -/
abbrev Path := List String

variable {μ : Type u} {η : Type v} [DecidableEq μ]

/-- A handler, and the only method and path it is for. -/
structure Route (μ : Type u) (η : Type v) where
  method : μ
  path : Path
  handler : η

def Route.takes (route : Route μ η) (method : μ) (path : Path) : Bool :=
  route.method = method ∧ route.path = path

def Route.wrap (middleware : η → η) (route : Route μ η) : Route μ η :=
  { route with handler := middleware route.handler }

/-- What is registered: one route, or a scope with its routes and what it serves otherwise. -/
inductive Service (μ : Type u) (η : Type v)
  | resource (route : Route μ η)
  | scope (root : Path) (routes : List (Route μ η)) (default : η)

namespace Service

def takes : Service μ η → μ → Path → Bool
  | resource route, method, path => route.takes method path
  | scope root _ _, _, path => root.isPrefixOf path

/-- The handler for a request that the service takes. -/
def handler : Service μ η → μ → Path → η
  | resource route, _, _ => route.handler
  | scope root routes default, method, path =>
    match routes.find? (·.takes method (path.drop root.length)) with
    | some route => route.handler
    | none => default

/-- `wrap`: the middleware that is added last is asked first. -/
def wrap (middleware : η → η) : Service μ η → Service μ η
  | resource route => resource (route.wrap middleware)
  | scope root routes default =>
    scope root (routes.map (Route.wrap middleware)) (middleware default)

variable (middleware : η → η) (service : Service μ η) (method : μ) (path : Path)

@[simp] theorem takes_wrap : (service.wrap middleware).takes method path
    = service.takes method path := by
  cases service <;> rfl

@[simp] theorem handler_wrap : (service.wrap middleware).handler method path
    = middleware (service.handler method path) := by
  cases service with
  | resource route => rfl
  | scope root routes default =>
    simp only [wrap, handler, List.find?_map]
    have hsame : (fun route : Route μ η => route.takes method (path.drop root.length)) ∘
        Route.wrap middleware = fun route => route.takes method (path.drop root.length) := rfl
    rw [hsame]
    cases routes.find? fun route => route.takes method (path.drop root.length) <;> rfl

@[simp] theorem takes_resource (route : Route μ η) : (resource route).takes method path = true ↔
    route.method = method ∧ route.path = path := decide_eq_true_iff

@[simp] theorem takes_scope (root : Path) (routes : List (Route μ η)) (default : η) :
    (scope root routes default).takes method path = true ↔ root <+: path :=
  List.isPrefixOf_iff_prefix

@[simp] theorem handler_resource (route : Route μ η) :
    (resource route).handler method path = route.handler := rfl

@[simp] theorem handler_scope_nil (root : Path) (default : η) :
    (scope root [] default).handler method path = default := rfl

/-- A scope serves one of its routes, or its default. -/
theorem handler_scope_cases (root : Path) (routes : List (Route μ η)) (default : η) :
    (∃ route ∈ routes, (scope root routes default).handler method path = route.handler) ∨
      (scope root routes default).handler method path = default := by
  simp only [handler]
  cases hfind : routes.find? fun route => route.takes method (path.drop root.length) with
  | some route => exact Or.inl ⟨route, List.mem_of_find?_eq_some hfind, rfl⟩
  | none => exact Or.inr rfl

end Service

/-- The handler of an application for a request. -/
def dispatch (services : List (Service μ η)) (default : η) (method : μ) (path : Path) : η :=
  match services.find? (·.takes method path) with
  | some service => service.handler method path
  | none => default

/-- What is registered later gets what the first does not take. -/
theorem dispatch_cons (service : Service μ η) (services : List (Service μ η)) (default : η)
    (method : μ) (path : Path) : dispatch (service :: services) default method path =
      if service.takes method path then service.handler method path
      else dispatch services default method path := by
  unfold dispatch
  rw [List.find?_cons]
  cases service.takes method path <;> rfl

end Sentinalysis.Lib.Routing
