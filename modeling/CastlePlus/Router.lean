import CastlePlus.FirstBest
import CastlePlus.RequestHead
import Mathlib.Data.List.Nodup
import Mathlib.Data.Prod.Lex
import Mathlib.Order.BooleanAlgebra.Defs

/-! # The most specific route

    `Router::match` (`http/router.cpp`) keeps the longest matching prefix and, at equal length,
    a route with a host over one without.  Its update rule is the pass of `FirstBest` for the
    lexicographic order on (prefix length, host-specific), so the answer is the first route of
    the table that is maximal in it; and since prefixes of one path with the same length are
    equal, two maximal routes have the same host and prefix. -/

namespace CastlePlus

open FirstBest

namespace Route

/-- The two tests at the top of the loop. -/
def applies (h path : Bytes) (r : Route) : Bool :=
  (r.host = [] ∨ r.host = h) ∧ r.pathPrefix <+: path

/-- Prefix length first, then host-specific over wildcard. -/
def specificity (r : Route) : Nat ×ₗ Bool := toLex (r.pathPrefix.length, decide (r.host ≠ []))

/-- What two routes of a sensible table differ in. -/
def key (r : Route) : Bytes × Bytes := (r.host, r.pathPrefix)

variable {h path : Bytes} {q r : Route}

theorem applies_iff :
    r.applies h path = true ↔ (r.host = [] ∨ r.host = h) ∧ r.pathPrefix <+: path := by
  rw [applies, decide_eq_true_eq]

theorem specificity_lt_iff : q.specificity < r.specificity ↔
    q.pathPrefix.length < r.pathPrefix.length ∨
      (r.pathPrefix.length = q.pathPrefix.length ∧ q.host = [] ∧ r.host ≠ []) := by
  rw [specificity, specificity, Prod.Lex.toLex_lt_toLex]
  by_cases hq : q.host = [] <;> by_cases hr : r.host = [] <;> simp [hq, hr, eq_comm]

/-- Two routes for the same request that are equally specific have the same key. -/
theorem key_eq_of_specificity (hq : q.applies h path = true) (hr : r.applies h path = true)
    (heq : q.specificity = r.specificity) : q.key = r.key := by
  rw [applies_iff] at hq hr
  obtain ⟨hlen, hspec⟩ := Prod.ext_iff.mp (toLex_inj.mp heq)
  have hprefix : q.pathPrefix = r.pathPrefix :=
    (List.prefix_of_prefix_length_le hq.2 hr.2 (le_of_eq hlen)).eq_of_length hlen
  have hnil : q.host = [] ↔ r.host = [] := by
    have hne := decide_eq_decide.mp hspec
    exact not_iff_not.mp hne
  have hhost : q.host = r.host := by
    by_cases hn : q.host = []
    · rw [hn, hnil.mp hn]
    · rw [hq.1.resolve_left hn, hr.1.resolve_left (mt hnil.mpr hn)]
  exact Prod.ext hhost hprefix

end Route

variable {routes routes' : List Route} {host path : Bytes}

theorem matchStep_eq_keep (h path : Bytes) :
    matchStep h path = keep (Route.applies h path) Route.specificity := by
  funext best r
  by_cases hr : r.applies h path = true
  · have happ := Route.applies_iff.mp hr
    have hhost : ¬ (r.host ≠ [] ∧ r.host ≠ h) := by
      rintro ⟨hne, hneh⟩
      exact happ.1.elim hne hneh
    cases best with
    | none => simp only [matchStep, keep, if_neg hhost, happ.2, not_true, if_false, hr, if_true]
    | some b =>
        simp only [matchStep, keep, if_neg hhost, happ.2, not_true, if_false, hr, if_true,
          Route.specificity_lt_iff]
  · have happ := mt Route.applies_iff.mpr hr
    have hkeep : keep (Route.applies h path) Route.specificity best r = best := if_neg hr
    rw [hkeep]
    by_cases hhost : r.host ≠ [] ∧ r.host ≠ h
    · exact if_pos hhost
    · refine (if_neg hhost).trans (if_pos ?_)
      intro hpre
      refine happ ⟨?_, hpre⟩
      by_cases hne : r.host = []
      · exact .inl hne
      · exact .inr (not_not.mp fun hneh => hhost ⟨hne, hneh⟩)

theorem routerMatch_eq (routes : List Route) (host path : Bytes) : routerMatch routes host path =
    (routes.foldl (keep (Route.applies (routeHost host) path) Route.specificity) none).map
      (·.backend) := by
  rw [routerMatch, matchStep_eq_keep]

theorem routerMatch_eq_none : routerMatch routes host path = none ↔
    ∀ r ∈ routes, r.applies (routeHost host) path = false := by
  rw [routerMatch_eq, Option.map_eq_none_iff, foldl_keep_eq_none]

theorem routerMatch_eq_some {b : Backend} : routerMatch routes host path = some b ↔
    ∃ r, First (Best (Route.applies (routeHost host) path) Route.specificity routes) routes r ∧
      r.backend = b := by
  rw [routerMatch_eq, Option.map_eq_some_iff]
  simp only [foldl_keep_eq_some]

/-- A table in which no two routes share host and prefix may be given in any order. -/
theorem routerMatch_perm (hnodup : (routes.map Route.key).Nodup) (hperm : routes.Perm routes') :
    routerMatch routes' host path = routerMatch routes host path := by
  rw [routerMatch_eq, routerMatch_eq, foldl_keep_perm hperm]
  intro q hq r hr hbq hbr
  have heq : q.specificity = r.specificity :=
    le_antisymm (hbr.2 q hq hbq.1) (hbq.2 r hr hbr.1)
  exact List.inj_on_of_nodup_map hnodup hq hr (Route.key_eq_of_specificity hbq.1 hbr.1 heq)

/-- For every table, `Host` value and path: nothing is returned exactly when no route has the
    host, or none, and a prefix of the path; otherwise the backend is that of the first route in
    table order among those that maximise (prefix length, host-specific).  If no two routes share
    host and prefix, every permutation of the table gives the same answer. -/
theorem most_specific_wins (routes : List Route) (host path : Bytes) :
    (routerMatch routes host path = none ↔
      ∀ r ∈ routes, ¬ ((r.host = [] ∨ r.host = routeHost host) ∧ r.pathPrefix <+: path)) ∧
    (∀ b, routerMatch routes host path = some b ↔
      ∃ r, First (Best (Route.applies (routeHost host) path) Route.specificity routes) routes r ∧
        r.backend = b) ∧
    ((routes.map fun r => (r.host, r.pathPrefix)).Nodup → ∀ routes', routes.Perm routes' →
      routerMatch routes' host path = routerMatch routes host path) := by
  refine ⟨?_, fun b => routerMatch_eq_some, fun hnodup routes' hperm => ?_⟩
  · rw [routerMatch_eq_none]
    constructor
    · intro h r hr happ
      exact absurd (h r hr) (by rw [Route.applies_iff.mpr happ]; decide)
    · intro h r hr
      exact Bool.eq_false_iff.mpr (mt Route.applies_iff.mp (h r hr))
  · exact routerMatch_perm hnodup hperm

/-- Two wildcard routes and one with a host, in two orders. -/
def demoRoutes : List Route :=
  [{ name := ascii "all", backend := ⟨ascii "a", 1⟩ },
   { name := ascii "api", pathPrefix := ascii "/api", backend := ⟨ascii "b", 2⟩ },
   { name := ascii "host", host := ascii "x.y", pathPrefix := ascii "/api",
     backend := ⟨ascii "c", 3⟩ }]

theorem most_specific_wins_demo :
    routerMatch demoRoutes.reverse (ascii "X.y:80") (ascii "/api/v1") =
      routerMatch demoRoutes (ascii "X.y:80") (ascii "/api/v1") ∧
    routerMatch demoRoutes (ascii "X.y:80") (ascii "/api/v1") = some ⟨ascii "c", 3⟩ := by
  have h := most_specific_wins demoRoutes (ascii "X.y:80") (ascii "/api/v1")
  exact ⟨h.2.2 (by decide) _ (List.reverse_perm demoRoutes).symm, by decide⟩

end CastlePlus
