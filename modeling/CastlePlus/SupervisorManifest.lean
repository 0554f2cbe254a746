import CastlePlus.StrictNumbers
import CastlePlus.SupervisorMoves
import Mathlib.Data.List.Induction

/-! # The supervisor of a manifest

    `main` hands the list that `parse_services_file` returns to the constructor of `Supervisor`.
    The names of the services are those of the sections, and no step changes a service's entry. -/

namespace CastlePlus

open TextFormat

/-- A `std::string` as a string, one character for each byte. -/
def latin1 (b : Bytes) : String := String.ofList (b.map Char.ofUInt8)

theorem ascii_latin1 (b : Bytes) : ascii (latin1 b) = b := by
  rw [ascii, latin1, String.toList_ofList, List.map_map]
  refine (List.map_congr_left fun c _ => ?_).trans (List.map_id b)
  show (Char.ofUInt8 c).toNat.toUInt8 = c
  exact UInt8.ofNat_toNat

theorem latin1_injective : Function.Injective latin1 := fun a b h => by
  rw [← ascii_latin1 a, h, ascii_latin1]

/-- The fields of an entry that the supervisor uses. -/
def ServiceEntry.config (e : ServiceEntry) : ServiceConfig where
  name := latin1 e.name
  autorestart := e.autorestart
  healthHost := latin1 e.healthHost
  healthPort := e.healthPort.toNat
  healthIntervalSec := e.healthIntervalSec.toInt
  backoffMinSec := e.backoffMinSec.toInt
  backoffMaxSec := e.backoffMaxSec.toInt

def manifestCfgs (es : List ServiceEntry) : Fin es.length → ServiceConfig :=
  fun i => (es.get i).config

/-! ## The names -/

/-- What every record of a file has, when new records have it and keys keep it. -/
theorem parseLines_forall {α : Type} {mk : Bytes → α}
    {setKey : α → Bytes → Bytes → Except Bytes α} {P : α → Prop}
    (hmk : ∀ name, name ≠ [] → Bare isTrimChar name → P (mk name))
    (hset : ∀ {cur cur' key val}, setKey cur key val = .ok cur' → P cur → P cur')
    {ls : List Bytes} : ∀ {lineno : Nat} {result result' : List α},
      parseLines mk setKey lineno result ls = .ok result' → (∀ r ∈ result, P r) →
        ∀ r ∈ result', P r := by
  have hline : ∀ {result result' : List α} {line : Bytes},
      parseLine mk setKey result line = .ok result' → (∀ r ∈ result, P r) →
        ∀ r ∈ result', P r := by
    intro result result' line h hall r hr
    rcases parseLine_ok h with ⟨-, rfl⟩ | ⟨name, hread, rfl⟩ |
      ⟨key, val, cur, next, -, hcur, hkey, rfl⟩
    · exact hall r hr
    · rcases List.mem_append.mp hr with hr | hr
      · exact hall r hr
      · rw [List.mem_singleton.mp hr]
        exact hmk name (readLine_name hread).1 (readLine_name hread).2
    · rcases List.mem_append.mp hr with hr | hr
      · exact hall r (List.dropLast_subset _ hr)
      · rw [List.mem_singleton.mp hr]
        exact hset hkey (hall cur (List.mem_of_mem_getLast? hcur))
  induction ls with
  | nil =>
      intro lineno result result' h hall
      cases h
      exact hall
  | cons line ls ih =>
      intro lineno result result' h hall
      rw [parseLines] at h
      cases hstep : parseLine mk setKey result line with
      | error msg =>
          rw [hstep] at h
          cases h
      | ok next =>
          rw [hstep] at h
          exact ih h (hline hstep hall)

/-- The names of an accepted manifest are trimmed and not empty. -/
theorem names_of_accepted {path text err err' : Bytes} {out es : List ServiceEntry}
    (h : parseServicesFile path (some text) out err = (true, es, err')) :
    ∀ e ∈ es, e.name ≠ [] ∧ Bare isTrimChar e.name :=
  parseLines_forall (P := fun e : ServiceEntry => e.name ≠ [] ∧ Bare isTrimChar e.name)
    (fun _ hne hbare => ⟨hne, hbare⟩)
    (fun hset hcur => by rw [(setServiceKey_frame hset).1]; exact hcur)
    (loadFile_accepts h).1 (fun r hr => (by cases hr))

theorem Outline.spawn_cfg (fork : Option Int) (now : Int) (o : Outline) :
    (o.spawn fork now).cfg = o.cfg := by
  cases fork <;> rfl

namespace Sup

variable {n : Nat} {K : Kernel} {cfgs : Fin n → ServiceConfig}

/-- A move keeps the entry. -/
theorem Move.cfg {s s' : Sup n} {l : Label} {i : Fin n} (h : Move K s l i s') :
    (s'.services i).cfg = (s.services i).cfg := by
  have hcfg : (s'.services i).outline.cfg = (s.services i).outline.cfg := by
    cases h with
    | stays h => rw [h]
    | asked hn hrun h => rw [h]
    | operator hn h => rw [h, Outline.spawn_cfg]; rfl
    | relaunch fork hrun hw h => rw [h, Outline.spawn_cfg]; rfl
    | due fork hl hb hf h => rw [h, Outline.spawn_cfg]
    | exit hrun hw hr h => rw [h]; rfl
    | down state hrun hs hr h => rw [h]; rfl
    | stopped hc h => rw [h]
  exact hcfg

theorem run_cfg (ls : List Label) (i : Fin n) : ((run K cfgs ls).services i).cfg = cfgs i := by
  induction ls using List.reverseRecOn with
  | nil =>
      obtain ⟨fork, k, h⟩ := start_outline K cfgs i
      have hcfg := congrArg Outline.cfg h
      rwa [Outline.spawn_cfg] at hcfg
  | append_singleton ls l ih =>
      rw [run_concat, (step_move (K := K) (tracked_run K cfgs ls) l i).cfg, ih]

end Sup

end CastlePlus
