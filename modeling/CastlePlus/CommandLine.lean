import CastlePlus.ConfigText

/-! # The command line

    `parse_args` (`main.cpp`).  Every option that is accepted takes one argument; the numeric ones
    read theirs with `strtol`, test the result against zero (`--port` against its range) and cast
    it to the type of the option.

    `strtol` reads any prefix, and of the casts only the one of `--port` is guarded.  So an accepted
    command line means what it says exactly when its numbers have no junk around them and fit their
    options (**`numbers_meant_iff`**). -/

namespace CastlePlus

open TextFormat

/-- `struct Options`. -/
structure Options where
  port : UInt16 := 8080
  bindAddr : Bytes := []
  threads : UInt32 := 0
  controlPath : Bytes := ascii "/tmp/castle.sock"
  servicesPath : Bytes := []
  routesPath : Bytes := []
  timeoutSec : Int32 := 30
  tlsCert : Bytes := []
  tlsKey : Bytes := []
  maxBody : UInt64 := 1024 * 1024 * 1024
  logFile : Bytes := []
  maxConn : UInt64 := 0
  rate : Int64 := 0
  rateBurst : Int64 := 0
  netCheckSec : Int32 := 30
  deriving DecidableEq

inductive NumberOption where
  | port
  | threads
  | timeout
  | maxBody
  | maxConn
  | rate
  | rateBurst
  | netCheck
  deriving DecidableEq

inductive TextOption where
  | bind
  | control
  | services
  | routes
  | logFile
  | tlsCert
  | tlsKey
  deriving DecidableEq

inductive CliOption where
  | number (o : NumberOption)
  | text (o : TextOption)
  | help
  deriving DecidableEq

namespace NumberOption

def flag : NumberOption → Bytes
  | .port => ascii "--port"
  | .threads => ascii "--threads"
  | .timeout => ascii "--timeout"
  | .maxBody => ascii "--max-body"
  | .maxConn => ascii "--max-conn"
  | .rate => ascii "--rate"
  | .rateBurst => ascii "--rate-burst"
  | .netCheck => ascii "--net-check"

/-- The test behind `next(val)`. -/
def accepts : NumberOption → Int → Bool
  | .port, val => 0 < val && val ≤ 65535
  | _, val => 0 ≤ val

/-- The assignment, with its cast. -/
def assign (val : Int) (opts : Options) : NumberOption → Options
  | .port => { opts with port := val.toNat.toUInt16 }
  | .threads => { opts with threads := val.toNat.toUInt32 }
  | .timeout => { opts with timeoutSec := .ofInt val }
  | .maxBody => { opts with maxBody := val.toNat.toUInt64 }
  | .maxConn => { opts with maxConn := val.toNat.toUInt64 }
  | .rate => { opts with rate := .ofInt val }
  | .rateBurst => { opts with rateBurst := .ofInt val }
  | .netCheck => { opts with netCheckSec := .ofInt val }

end NumberOption

namespace TextOption

def assign (val : Bytes) (opts : Options) : TextOption → Options
  | .bind => { opts with bindAddr := val }
  | .control => { opts with controlPath := val }
  | .services => { opts with servicesPath := val }
  | .routes => { opts with routesPath := val }
  | .logFile => { opts with logFile := val }
  | .tlsCert => { opts with tlsCert := val }
  | .tlsKey => { opts with tlsKey := val }

end TextOption

/-- The comparisons of the chain, in its order. -/
def cliOption (arg : Bytes) : Option CliOption :=
  if arg = ascii "--port" then some (.number .port)
  else if arg = ascii "--bind" then some (.text .bind)
  else if arg = ascii "--threads" then some (.number .threads)
  else if arg = ascii "--control" then some (.text .control)
  else if arg = ascii "--services" then some (.text .services)
  else if arg = ascii "--routes" then some (.text .routes)
  else if arg = ascii "--timeout" then some (.number .timeout)
  else if arg = ascii "--max-body" then some (.number .maxBody)
  else if arg = ascii "--log-file" then some (.text .logFile)
  else if arg = ascii "--max-conn" then some (.number .maxConn)
  else if arg = ascii "--rate" then some (.number .rate)
  else if arg = ascii "--rate-burst" then some (.number .rateBurst)
  else if arg = ascii "--net-check" then some (.number .netCheck)
  else if arg = ascii "--tls-cert" then some (.text .tlsCert)
  else if arg = ascii "--tls-key" then some (.text .tlsKey)
  else if arg = ascii "-h" ∨ arg = ascii "--help" then some .help
  else none

/-- The last branch of the chain. -/
def unknownArgument (arg : Bytes) (opts : Options) : Bool × Options × Bytes :=
  (false, opts, ascii "Unknown/invalid argument: " ++ arg ++ ascii "\n")

/-- The loop of `parse_args`: the result, the options as they stand then, and the text on
    `stderr`. -/
def parseRest (opts : Options) : List Bytes → Bool × Options × Bytes
  | [] => (true, opts, [])
  | arg :: rest =>
      match cliOption arg with
      | some (.number o) =>
          match rest with
          | [] => unknownArgument arg opts
          | v :: rest =>
              -- a value that fails its test falls through the chain: no other branch is for `arg`
              if o.accepts (strtol v) then parseRest (o.assign (strtol v) opts) rest
              else unknownArgument arg opts
      | some (.text o) =>
          match rest with
          | [] => (false, opts, [])
          | v :: rest => parseRest (o.assign v opts) rest
      | some .help => (false, opts, [])
      | none => unknownArgument arg opts

/-- `parse_args`; the first argument is the name of the program. -/
def parseArgs (argv : List Bytes) (opts : Options) : Bool × Options × Bytes :=
  parseRest opts argv.tail

/-! ## The numbers that were given -/

/-- The arguments in pairs, an option and its value. -/
def optionPairs : List Bytes → List (Bytes × Bytes)
  | arg :: v :: rest => (arg, v) :: optionPairs rest
  | _ => []

/-- The texts given for a numeric option, in their order. -/
def NumberOption.texts (o : NumberOption) (args : List Bytes) : List Bytes :=
  (optionPairs args).filterMap fun p => if p.1 = o.flag then some p.2 else none

namespace NumberOption

/-- What an option holds. -/
def value (opts : Options) : NumberOption → Int
  | .port => opts.port.toNat
  | .threads => opts.threads.toNat
  | .timeout => opts.timeoutSec.toInt
  | .maxBody => opts.maxBody.toNat
  | .maxConn => opts.maxConn.toNat
  | .rate => opts.rate.toInt
  | .rateBurst => opts.rateBurst.toInt
  | .netCheck => opts.netCheckSec.toInt

/-- What an option holds after an assignment. -/
def stored (o : NumberOption) (val : Int) : Int := o.value (o.assign val {})

/-- The largest number that gets through `strtol` and the cast. -/
def limit : NumberOption → Int
  | .port => 65535
  | .threads => 2 ^ 32 - 1
  | .timeout | .netCheck => 2 ^ 31 - 1
  | .maxBody | .maxConn | .rate | .rateBurst => longMax

end NumberOption

/-- The numbers of a command line mean what they say: each is a decimal integer from end to end,
    and the option holds the last one given for it. -/
structure NumbersMeant (argv : List Bytes) (opts : Options) : Prop where
  decimal : ∀ (o : NumberOption), ∀ t ∈ o.texts argv.tail, ∃ z, decimalText t = some z
  stored : ∀ (o : NumberOption) (t : Bytes) (z : Int), (o.texts argv.tail).getLast? = some t →
    decimalText t = some z → o.value opts = z
  /-- nothing that was asked for is off -/
  nonzero : ∀ (o : NumberOption) (t : Bytes) (z : Int), (o.texts argv.tail).getLast? = some t →
    decimalText t = some z → z ≠ 0 → o.value opts ≠ 0

/-- The numbers have no junk around them, and the last one for each option fits it. -/
structure NumbersTidy (argv : List Bytes) : Prop where
  decimal : ∀ (o : NumberOption), ∀ t ∈ o.texts argv.tail, ∃ z, decimalText t = some z
  fits : ∀ (o : NumberOption) (t : Bytes) (z : Int), (o.texts argv.tail).getLast? = some t →
    decimalText t = some z → z ≤ o.limit

/-! ## What is accepted -/

theorem of_ite_some {c : Prop} [Decidable c] {x y : CliOption} {e : Option CliOption}
    (h : (if c then some x else e) = some y) : c ∧ x = y ∨ e = some y := by
  by_cases hc : c
  · rw [if_pos hc] at h
    exact .inl ⟨hc, Option.some.inj h⟩
  · rw [if_neg hc] at h
    exact .inr h

theorem cliOption_number {arg : Bytes} {o : NumberOption} :
    cliOption arg = some (.number o) ↔ arg = o.flag := by
  constructor
  · intro h
    rw [cliOption] at h
    iterate 16
      rcases of_ite_some h with ⟨harg, hopt⟩ | h
      · first
          | (cases hopt; exact harg)
          | cases hopt
    cases h
  · rintro rfl
    cases o <;> decide

theorem value_assign_number (o o' : NumberOption) (val : Int) (opts : Options) :
    o.value (o'.assign val opts) = if o' = o then o.stored val else o.value opts := by
  cases o <;> cases o' <;> rfl

theorem value_assign_text (o : NumberOption) (o' : TextOption) (val : Bytes) (opts : Options) :
    o.value (o'.assign val opts) = o.value opts := by
  cases o <;> cases o' <;> rfl

/-- An accepted argument is a numeric option with a number that passes its test, or an option with
    a text; its value follows it. -/
theorem parseRest_cons {opts opts' : Options} {arg err : Bytes} {rest : List Bytes}
    (h : parseRest opts (arg :: rest) = (true, opts', err)) :
    ∃ v rest', rest = v :: rest' ∧
      ((∃ o : NumberOption, arg = o.flag ∧ o.accepts (strtol v) = true ∧
          parseRest (o.assign (strtol v) opts) rest' = (true, opts', err)) ∨
        ∃ o : TextOption, cliOption arg = some (.text o) ∧
          parseRest (o.assign v opts) rest' = (true, opts', err)) := by
  rw [parseRest] at h
  cases harg : cliOption arg with
  | none => rw [harg] at h; cases h
  | some opt =>
      rw [harg] at h
      cases opt with
      | help => cases h
      | number o =>
          cases rest with
          | nil => cases h
          | cons v rest' =>
              refine ⟨v, rest', rfl, .inl ⟨o, cliOption_number.mp harg, ?_⟩⟩
              by_cases hv : o.accepts (strtol v) = true
              · simp only [hv, if_true] at h
                exact ⟨hv, h⟩
              · simp only [hv] at h
                cases h
      | text o =>
          cases rest with
          | nil => cases h
          | cons v rest' => exact ⟨v, rest', rfl, .inr ⟨o, rfl, h⟩⟩

theorem texts_cons (o : NumberOption) (arg v : Bytes) (rest : List Bytes) :
    o.texts (arg :: v :: rest) = if arg = o.flag then v :: o.texts rest else o.texts rest := by
  rw [NumberOption.texts, optionPairs, List.filterMap_cons]
  by_cases h : arg = o.flag
  · rw [if_pos h, if_pos h]
    rfl
  · rw [if_neg h, if_neg h]
    rfl

theorem flag_injective {o o' : NumberOption} (h : o.flag = o'.flag) : o = o' := by
  have hopt := cliOption_number.mpr h
  rw [cliOption_number.mpr rfl] at hopt
  cases hopt
  rfl

/-- Every number that was given has passed its test, and the option holds what the last one
    left. -/
theorem parseRest_value {args : List Bytes} {opts opts' : Options} {err : Bytes}
    (h : parseRest opts args = (true, opts', err)) (o : NumberOption) :
    (∀ t ∈ o.texts args, o.accepts (strtol t) = true) ∧
      o.value opts' = ((o.texts args).getLast?.map fun t => o.stored (strtol t)).getD
        (o.value opts) := by
  induction args using optionPairs.induct generalizing opts with
  | case2 args hshort =>
      cases args with
      | nil => cases h; exact ⟨fun t ht => (by cases ht), rfl⟩
      | cons arg rest =>
          obtain ⟨v, rest', rfl, -⟩ := parseRest_cons h
          exact absurd rfl (hshort arg v rest')
  | case1 arg v rest ih =>
      obtain ⟨v', rest', heq, hcase⟩ := parseRest_cons h
      cases heq
      -- an option other than `o` leaves its value alone
      have hkeep : ∀ {opts₁ : Options}, arg ≠ o.flag → o.value opts₁ = o.value opts →
          parseRest opts₁ rest = (true, opts', err) →
          (∀ t ∈ o.texts (arg :: v :: rest), o.accepts (strtol t) = true) ∧
            o.value opts' = ((o.texts (arg :: v :: rest)).getLast?.map
              fun t => o.stored (strtol t)).getD (o.value opts) := by
        intro opts₁ hne hvalue hrest
        rw [texts_cons, if_neg hne, ← hvalue]
        exact ih hrest
      rcases hcase with ⟨o', rfl, haccepts, hrest⟩ | ⟨o', harg, hrest⟩
      · by_cases ho : o' = o
        · -- this is `o` itself, of which the last one counts
          subst ho
          obtain ⟨hall, hvalue⟩ := ih hrest
          rw [texts_cons, if_pos rfl]
          refine ⟨fun t ht => ?_, ?_⟩
          · rcases List.mem_cons.mp ht with rfl | ht
            · exact haccepts
            · exact hall t ht
          · rw [hvalue, value_assign_number, if_pos rfl, List.getLast?_cons]
            cases (o'.texts rest).getLast? with
            | none => rfl
            | some t => rfl
        · refine hkeep (fun hflag => ho (flag_injective hflag)) ?_ hrest
          rw [value_assign_number, if_neg ho]
      · refine hkeep (fun hflag => ?_) (value_assign_text o o' v opts) hrest
        rw [cliOption_number.mpr hflag] at harg
        cases harg

/-! ## The casts -/

section Casts

variable {v z : Int}

theorem toNat_toUInt32 (h : 0 ≤ v) : (v.toNat.toUInt32.toNat : Int) = v % 2 ^ 32 := by
  rw [Nat.toUInt32_eq, UInt32.toNat_ofNat']
  omega

theorem toNat_toUInt64 (h : 0 ≤ v) (hv : v ≤ longMax) : (v.toNat.toUInt64.toNat : Int) = v := by
  have hlong : longMax < 2 ^ 64 := by decide
  rw [Nat.toUInt64_eq, UInt64.toNat_ofNat', Nat.mod_eq_of_lt (by omega)]
  omega

/-- A cast to `int` keeps what fits. -/
theorem toInt_ofInt32_iff (hclip : v = min z longMax) (h : 0 ≤ v) :
    (Int32.ofInt v).toInt = z ↔ z ≤ 2 ^ 31 - 1 := by
  have hlong : (2 ^ 31 : Int) ≤ longMax := by decide
  constructor
  · intro hz
    have := Int32.toInt_lt (Int32.ofInt v)
    omega
  · intro hz
    rw [Int32.toInt_ofInt_of_le (by omega) (by omega)]
    omega

theorem toInt_ofInt64 (h : 0 ≤ v) (hv : v ≤ longMax) : (Int64.ofInt v).toInt = v := by
  have hlong : (longMax : Int) < 2 ^ 63 := by decide
  exact Int64.toInt_ofInt_of_le (by omega) (by omega)

end Casts

/-- A number that passed its test is stored exactly if it is within the limit. -/
theorem stored_iff {o : NumberOption} {t : Bytes} {z : Int} (hz : decimalText t = some z)
    (h : o.accepts (strtol t) = true) : o.stored (strtol t) = z ↔ z ≤ o.limit := by
  have hlong : (2 ^ 32 : Int) ≤ longMax := by decide
  obtain ⟨v, hv⟩ : ∃ v, strtol t = v := ⟨_, rfl⟩
  have hclip := strtol_of_decimalText hz
  rw [hv] at h hclip ⊢
  have hpos : 0 ≤ v := by
    cases o with
    | port =>
        simp only [NumberOption.accepts, Bool.and_eq_true, decide_eq_true_eq] at h
        omega
    | _ => exact of_decide_eq_true h
  -- a number that is not negative is only clipped from above
  have hmin : v = min z longMax := by omega
  have hsize : (v.toNat.toUInt64.toNat : Int) = z ↔ z ≤ longMax := by
    rw [toNat_toUInt64 hpos (by omega)]
    omega
  have hint := toInt_ofInt32_iff hmin hpos
  have hsigned : (Int64.ofInt v).toInt = z ↔ z ≤ longMax := by
    rw [toInt_ofInt64 hpos (by omega)]
    omega
  cases o with
  | port =>
      simp only [NumberOption.accepts, Bool.and_eq_true, decide_eq_true_eq] at h
      show (v.toNat.toUInt16.toNat : Int) = z ↔ z ≤ 65535
      rw [Nat.toUInt16_eq, UInt16.toNat_ofNat', Nat.mod_eq_of_lt (by omega)]
      omega
  | threads =>
      show (v.toNat.toUInt32.toNat : Int) = z ↔ z ≤ 2 ^ 32 - 1
      rw [toNat_toUInt32 hpos]
      omega
  | timeout => exact hint
  | maxBody => exact hsize
  | maxConn => exact hsize
  | rate => exact hsigned
  | rateBurst => exact hsigned
  | netCheck => exact hint

/-- **Numbers on the command line.**  An accepted command line means what it says exactly when each
    number is a decimal integer from end to end and the last one for each option is not beyond the
    limit of `strtol` and of the option's type. -/
theorem numbers_meant_iff {argv : List Bytes} {opts opts' : Options} {err : Bytes}
    (h : parseArgs argv opts = (true, opts', err)) :
    NumbersMeant argv opts' ↔ NumbersTidy argv := by
  have hvalue := fun o => parseRest_value h o
  have hlast : ∀ (o : NumberOption) (t : Bytes) (z : Int),
      (o.texts argv.tail).getLast? = some t → decimalText t = some z →
      (o.value opts' = z ↔ z ≤ o.limit) := by
    intro o t z ht hz
    obtain ⟨hall, hv⟩ := hvalue o
    rw [ht, Option.map_some, Option.getD_some] at hv
    rw [hv]
    exact stored_iff hz (hall t (List.mem_of_mem_getLast? ht))
  constructor
  · intro hmeant
    exact ⟨hmeant.decimal, fun o t z ht hz => (hlast o t z ht hz).mp (hmeant.stored o t z ht hz)⟩
  · intro htidy
    refine ⟨htidy.decimal, fun o t z ht hz => ?_, fun o t z ht hz hne => ?_⟩
    · exact (hlast o t z ht hz).mpr (htidy.fits o t z ht hz)
    · rw [(hlast o t z ht hz).mpr (htidy.fits o t z ht hz)]
      exact hne

theorem numbers_meant_iff_timeout :
    NumbersMeant [ascii "castle", ascii "--timeout", ascii "5"] { timeoutSec := 5 } := by
  have hfive : decimalText (ascii "5") = some 5 := by decide
  have htexts : ∀ (o : NumberOption), ∀ t ∈ o.texts [ascii "--timeout", ascii "5"],
      t = ascii "5" := by
    intro o t ht
    rw [texts_cons] at ht
    by_cases hflag : ascii "--timeout" = o.flag
    · rw [if_pos hflag] at ht
      exact List.mem_singleton.mp ht
    · rw [if_neg hflag] at ht
      cases ht
  have haccepted : parseArgs [ascii "castle", ascii "--timeout", ascii "5"] {} =
      (true, { timeoutSec := 5 }, []) := by decide
  refine (numbers_meant_iff haccepted).mpr ⟨?_, ?_⟩
  · intro o t ht
    rw [htexts o t ht]
    exact ⟨5, hfive⟩
  · intro o t z ht hz
    rw [htexts o t (List.mem_of_mem_getLast? ht), hfive] at hz
    cases hz
    cases o <;> decide

/-- The idle timeout of four billion seconds is accepted, and is off. -/
theorem timeout_off :
    parseArgs [ascii "castle", ascii "--timeout", ascii "4294967296"] {} =
        (true, { timeoutSec := 0 }, []) ∧
      ¬ NumbersMeant [ascii "castle", ascii "--timeout", ascii "4294967296"]
        { timeoutSec := 0 } := by
  refine ⟨by decide, fun h => ?_⟩
  exact absurd (h.stored .timeout (ascii "4294967296") 4294967296 (by decide) (by decide))
    (by decide)

end CastlePlus
