import TickToTrade.Library.Decimal

/-! Log messages: how `log` fills one and how `writeToFile` prints one as a line. -/
namespace TickToTrade

/-- The levels; `unknown` is a value of the type that is none of the enumerators. -/
inductive LogLevel
  | info
  | warn
  | error
  | fatal
  | unknown
  deriving DecidableEq, Repr

def maxLogPayload : ℕ := 240

/-- A message in a queue. The payload is what stands in the array before the NUL that `vsnprintf`
writes, so it leaves room for that NUL. -/
structure LogMessage where
  timestamp : UInt64
  level : LogLevel
  threadId : UInt32
  length : UInt32
  payload : List UInt8
  fits : payload.length < maxLogPayload

/-- The outcome of `vsnprintf`: the whole formatted text, or a negative result after some of it. -/
inductive FormatResult
  | ok (text : List UInt8)
  | error (written : List UInt8)

namespace LogMessage

/-- What `log` pushes: the payload is cut to its array. -/
def log (level : LogLevel) (timestamp : UInt64) (localThreadId : UInt32) (formatted : FormatResult) :
    LogMessage :=
  let (text,length) := match formatted with
    | .ok text => (text,if maxLogPayload ≤ text.length then maxLogPayload - 1 else text.length)
    | .error written => (written,0)
  { timestamp := timestamp
    level := level
    threadId := localThreadId
    length := UInt32.ofNat length
    payload := text.take (maxLogPayload - 1)
    fits := by
      rw [List.length_take,maxLogPayload]
      omega }

end LogMessage

def levelToString : LogLevel → List Char
  | .info => ['I','N','F','O']
  | .warn => ['W','A','R','N']
  | .error => ['E','R','R','O','R']
  | .fatal => ['F','A','T','A','L']
  | .unknown => ['U','N','K','N','O','W','N']

/-- The characters of a format or of a literal, as bytes. -/
def asciiBytes (text : List Char) : List UInt8 := text.map Char.toUInt8

/-- The text of `"[%lu] [T:%u] [%s] %s\n"`; `%s` stops at the first NUL of the payload. -/
def LogMessage.line (msg : LogMessage) : List UInt8 :=
  asciiBytes ['['] ++ decimalPadded 1 msg.timestamp.toNat ++ asciiBytes [']',' ','[','T',':'] ++
    decimalPadded 1 msg.threadId.toNat ++ asciiBytes [']',' ','['] ++ asciiBytes (levelToString msg.level) ++
    asciiBytes [']',' '] ++ msg.payload.takeWhile (· ≠ 0) ++ asciiBytes ['\n']

theorem LogMessage.length_line_le (msg : LogMessage) : msg.line.length ≤ 288 := by
  have htimestamp : (decimalPadded 1 msg.timestamp.toNat).length ≤ 20 :=
    length_decimalPadded_le (by decide) (Nat.lt_of_lt_of_le msg.timestamp.toNat_lt (by decide))
  have hthread : (decimalPadded 1 msg.threadId.toNat).length ≤ 10 :=
    length_decimalPadded_le (by decide) (Nat.lt_of_lt_of_le msg.threadId.toNat_lt (by decide))
  have hlevel : (levelToString msg.level).length ≤ 7 := by
    cases msg.level <;> decide
  have hpayload : (msg.payload.takeWhile (· ≠ 0)).length ≤ 239 := by
    have hprefix := (List.takeWhile_prefix (l := msg.payload) (· ≠ 0)).length_le
    have hfits := msg.fits
    unfold maxLogPayload at hfits
    omega
  simp only [line,asciiBytes,List.length_append,List.length_map,List.length_cons,List.length_nil]
  omega

end TickToTrade
