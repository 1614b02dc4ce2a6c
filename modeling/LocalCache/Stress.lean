import LocalCache.AsyncClient
import LocalCache.Library.Numeral
import LocalCache.ServerArgs
import Mathlib.Data.List.TakeWhile

namespace LocalCache

open Protocol Library

namespace Stress

structure Options where
  socket : String := "/tmp/local_cache.sock"
  connections : UInt64 := 500
  pipeline : UInt64 := 32
  requests : UInt64 := 100000
  deriving DecidableEq, Repr

def Options.engineConfig (o : Options) : EngineConfig :=
  { socketPath := o.socket, connections := o.connections.toNat,
    pipelineDepth := o.pipeline.toNat, requests := o.requests }

def digitChar (d : Nat) : UInt8 := UInt8.ofNat ('0'.toNat + d)

/-- `std::to_string` of a `uint64_t`, which has at most 20 digits. -/
def toText (n : UInt64) : Bytes := (Numeral.digits 10 20 n.toNat []).map digitChar

def isSpace (c : UInt8) : Bool := c = 32 || (9 ≤ c && c ≤ 13)

def isDigit (c : UInt8) : Bool := '0'.toUInt8 ≤ c && c ≤ '9'.toUInt8

/-- What `std::strtoull` takes for the digits, which end at the first other character. -/
def magnitude (text : Bytes) : Nat :=
  Numeral.horner 10 0 ((text.takeWhile isDigit).map fun c => c.toNat - '0'.toNat)

/-- `std::strtoull` with base 10. -/
def strtoull (text : Bytes) : UInt64 :=
  let text := text.dropWhile isSpace
  let negative := text.head? = some '-'.toUInt8
  let signed := negative ∨ text.head? = some '+'.toUInt8
  let n := magnitude (if signed then text.tail else text)
  if 2 ^ 64 ≤ n then kSizeMax
  else if negative then 0 - UInt64.ofNat n
  else UInt64.ofNat n

/-- The text behind the last `c`, or all of it if there is none. -/
def behindLast (c : UInt8) (text : Bytes) : Bytes := (text.reverse.takeWhile (· ≠ c)).reverse

/-- One turn of the generator of pseudorandom numbers. -/
def scramble (state : UInt64) : UInt64 :=
  let state := state ^^^ (state >>> 12)
  let state := state ^^^ (state <<< 25)
  state ^^^ (state >>> 27)

/-- The loop that fills the value, with the number of turns left. -/
def pad : Nat → UInt64 → Bytes → Bytes
  | 0, _, value => value
  | n + 1, state, value =>
    let state := scramble state
    pad n state (value ++ [state.toUInt8])

def payload (connection sequence : UInt64) : Bytes :=
  let value := ServerOption.chars "LCS-STRESS:" ++ toText connection ++ [':'.toUInt8] ++
    toText sequence ++ [':'.toUInt8]
  let state := ((sequence + 1) * 0x9e3779b97f4a7c15) ^^^ connection
  pad (256 - value.length) state value

def key (sequence : UInt64) : Bytes := ServerOption.chars "stress:" ++ toText sequence

def putSpec (sequence : UInt64) : RequestSpec :=
  { opcode := .kPut, key := key sequence, value := payload 0 sequence }

def getSpec (sequence : UInt64) : RequestSpec := { opcode := .kGet, key := key sequence }

structure Counters where
  validationFailures : Nat := 0
  protocolFailures : Nat := 0
  corruptionFailures : Nat := 0
  deriving DecidableEq, Repr

def onPut (c : Counters) (x : Completion) : Counters where
  protocolFailures := if x.response.requestId = 0 then c.protocolFailures + 1
    else c.protocolFailures
  validationFailures := if x.response.status ≠ .kOk then c.validationFailures + 1
    else c.validationFailures
  corruptionFailures := if x.response.value ≠ [] then c.corruptionFailures + 1
    else c.corruptionFailures

def onGet (c : Counters) (x : Completion) : Counters :=
  let c := if x.response.requestId = 0 then
    { c with protocolFailures := c.protocolFailures + 1 } else c
  if x.response.status ≠ .kOk then { c with validationFailures := c.validationFailures + 1 }
  else
    let sequence := strtoull (behindLast ':'.toUInt8 x.request.key)
    if x.response.value ≠ payload 0 sequence then
      { c with corruptionFailures := c.corruptionFailures + 1 }
    else c

def counters (put get : Engine) : Counters :=
  (get.trace.completed.map Prod.snd).foldl onGet
    ((put.trace.completed.map Prod.snd).foldl onPut {})

structure Report where
  sent : Nat
  received : Nat
  validationFailures : Nat
  protocolFailures : Nat
  connectionFailures : Nat
  ioFailures : Nat
  corruptionFailures : Nat
  deriving DecidableEq, Repr

def report (put get : Engine) : Report where
  sent := put.stats.sent + get.stats.sent
  received := put.stats.received + get.stats.received
  validationFailures := (counters put get).validationFailures
  protocolFailures := (counters put get).protocolFailures +
    (put.stats.protocolFailures + get.stats.protocolFailures)
  connectionFailures := put.stats.connectFailures + get.stats.connectFailures
  ioFailures := put.stats.ioFailures + get.stats.ioFailures
  corruptionFailures := (counters put get).corruptionFailures

/-- What `main` returns after both engines. -/
def exitCode (error : String) (r : Report) : Nat :=
  if error = "" ∧ r.validationFailures = 0 ∧ r.protocolFailures = 0 ∧
    r.connectionFailures = 0 ∧ r.ioFailures = 0 ∧ r.corruptionFailures = 0 then 0 else 1

def outcome (e : Engine) : Option String :=
  match e.phase with
  | .unconnected error | .returned error => some error
  | _ => none

/-- What `main` has returned, if it has. After an error of the first engine it does not start the
second. -/
def verdict (put get : Engine) : Option Nat :=
  (outcome put).bind fun error =>
    if error = "" then (outcome get).map fun error => exitCode error (report put get)
    else some (exitCode error (report put get))

theorem toNat_digitChar {d : Nat} (h : d < 10) : (digitChar d).toNat = '0'.toNat + d := by
  rw [digitChar, UInt8.toNat_ofNat']
  exact Nat.mod_eq_of_lt (by have hz : '0'.toNat = 48 := rfl; omega)

theorem isDigit_iff {c : UInt8} : isDigit c = true ↔ 48 ≤ c.toNat ∧ c.toNat ≤ 57 := by
  rw [isDigit, Bool.and_eq_true, decide_eq_true_iff, decide_eq_true_iff, UInt8.le_iff_toNat_le,
    UInt8.le_iff_toNat_le]
  rfl

theorem digit_lt {n : Nat} : ∀ d ∈ Numeral.digits 10 20 n [], d < 10 :=
  Numeral.digits_lt (by decide) 20 n [] (fun _ hd => by cases hd)

theorem isDigit_toText (n : UInt64) : ∀ c ∈ toText n, isDigit c = true := by
  intro c hc
  obtain ⟨d, hd, rfl⟩ := List.mem_map.mp hc
  have hlt := digit_lt d hd
  rw [isDigit_iff, toNat_digitChar hlt]
  have hz : '0'.toNat = 48 := rfl
  omega

theorem length_toText (n : UInt64) : 0 < (toText n).length ∧ (toText n).length ≤ 20 := by
  have hlen := Numeral.length_digits (b := 10) 20 n.toNat []
  rw [toText, List.length_map]
  exact ⟨hlen.2 (by decide), hlen.1⟩

/-- A text of digits has neither blanks nor a sign in front. -/
theorem strtoull_digits {text : Bytes} (h : ∀ c ∈ text, isDigit c = true)
    (lt : magnitude text < 2 ^ 64) : strtoull text = UInt64.ofNat (magnitude text) := by
  have hskip : text.dropWhile isSpace = text := by
    cases text with
    | nil => rfl
    | cons c text =>
      have hc := isDigit_iff.mp (h c (List.mem_cons_self ..))
      refine List.dropWhile_cons_of_neg ?_
      simp only [isSpace, Bool.or_eq_true, Bool.and_eq_true, decide_eq_true_eq,
        UInt8.le_iff_toNat_le, ← UInt8.toNat_inj]
      change ¬(c.toNat = 32 ∨ 9 ≤ c.toNat ∧ c.toNat ≤ 13)
      omega
  have hsign : ∀ sign : UInt8, sign.toNat < 48 → text.head? ≠ some sign := by
    intro sign hsign hhead
    have hc := isDigit_iff.mp (h sign (List.mem_of_mem_head? hhead))
    omega
  have hminus := hsign '-'.toUInt8 (by decide)
  have hplus := hsign '+'.toUInt8 (by decide)
  simp only [strtoull, hskip, hminus, hplus, or_self, if_false]
  exact if_neg (Nat.not_le_of_lt lt)

theorem magnitude_toText (n : UInt64) : magnitude (toText n) = n.toNat := by
  have hlt : n.toNat < 10 ^ 20 := Nat.lt_trans n.toNat_lt (by decide)
  have hdigits : (toText n).map (fun c => c.toNat - '0'.toNat) =
      Numeral.digits 10 20 n.toNat [] := by
    rw [toText, List.map_map]
    refine (List.map_congr_left ?_).trans (List.map_id _)
    intro d hd
    rw [Function.comp_apply, toNat_digitChar (digit_lt d hd)]
    exact Nat.add_sub_cancel_left _ _
  rw [magnitude, List.takeWhile_eq_self_iff.mpr (isDigit_toText n), hdigits,
    Numeral.horner_digits 20 n.toNat [] hlt]
  rfl

theorem strtoull_key (n : UInt64) : strtoull (behindLast ':'.toUInt8 (key n)) = n := by
  have hbehind : behindLast ':'.toUInt8 (key n) = toText n := by
    have hname : (ServerOption.chars "stress:").reverse.takeWhile (· ≠ ':'.toUInt8) = [] := by
      decide +kernel
    have hdigits : ∀ c ∈ (toText n).reverse, decide (c ≠ ':'.toUInt8) = true := by
      intro c hc
      have hd := isDigit_iff.mp (isDigit_toText n c (List.mem_reverse.mp hc))
      refine decide_eq_true ?_
      rintro rfl
      exact absurd hd (by decide)
    rw [behindLast, key, List.reverse_append, List.takeWhile_append_of_pos hdigits, hname,
      List.append_nil, List.reverse_reverse]
  have hlt : magnitude (toText n) < 2 ^ 64 := by
    rw [magnitude_toText]
    exact n.toNat_lt
  rw [hbehind, strtoull_digits (isDigit_toText n) hlt, magnitude_toText, UInt64.ofNat_toNat]

theorem length_pad (n : Nat) (state : UInt64) (value : Bytes) :
    (pad n state value).length = n + value.length := by
  induction n generalizing state value with
  | zero => exact (Nat.zero_add _).symm
  | succ n ih =>
    rw [pad, ih, List.length_append, List.length_singleton]
    omega

theorem length_payload (connection sequence : UInt64) :
    (payload connection sequence).length = 256 := by
  have hname : (ServerOption.chars "LCS-STRESS:").length = 11 := by decide +kernel
  have hconnection := (length_toText connection).2
  have hsequence := (length_toText sequence).2
  rw [payload, length_pad]
  simp only [List.length_append, List.length_singleton, hname]
  omega

theorem length_key (n : UInt64) : 7 < (key n).length ∧ (key n).length ≤ 27 := by
  have hname : (ServerOption.chars "stress:").length = 7 := by decide +kernel
  have htext := length_toText n
  rw [key, List.length_append, hname]
  omega

end Stress

end LocalCache
