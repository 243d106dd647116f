import PeerRpc.Frame.Fault
import PeerRpc.Text.Basic

/-!
# Finding a frame in a buffer

A frame is a block of header lines, an empty line, and a payload. Every line ends in carriage
return and line feed; one of the headers tells how many bytes the payload has. Empty lines before
the headers are passed over.

`scan` looks at a buffer from a place on and tells whether a whole frame starts there, the beginning
of one, or something that no frame starts with. It gives places, so that nothing is copied but the
payload. `scan_frame_place` and `scan_waiting_place` say where these places lie.
-/

namespace PeerRpc.Frame

/-- The bytes of a frame around a payload. -/
def encode (payload : List UInt8) : List UInt8 :=
  Text.utf8OfChars ("Content-Length: ".toList ++ Decimal.natural payload.length ++
    ['\r', '\n', '\r', '\n']) ++ payload

/-- The place of the first line feed from a place on, if there is one. -/
def lineFeed? (buffer : Array UInt8) (i : Nat) : Option Nat :=
  if h : i < buffer.size then
    if buffer[i] = 10 then some i else lineFeed? buffer (i + 1)
  else none
termination_by buffer.size - i

theorem lineFeed?_place {buffer : Array UInt8} {i j : Nat} (h : lineFeed? buffer i = some j) :
    i ≤ j ∧ j < buffer.size := by
  fun_induction lineFeed? buffer i with
  | case1 i hi hb =>
    cases h
    omega
  | case2 i hi hb ih =>
    have := ih h
    omega
  | case3 i hi => simp at h

/-- The place after the empty lines that stand at a place. -/
def skipEmptyLines (buffer : Array UInt8) (i : Nat) : Nat :=
  if h : i + 1 < buffer.size then
    if buffer[i] = 13 && buffer[i + 1] = 10 then skipEmptyLines buffer (i + 2) else i
  else i
termination_by buffer.size - i

theorem skipEmptyLines_place (buffer : Array UInt8) (i : Nat) :
    i ≤ skipEmptyLines buffer i ∧ skipEmptyLines buffer i ≤ max i buffer.size := by
  fun_induction skipEmptyLines buffer i with
  | case1 i hi hb ih => omega
  | case2 i hi hb => omega
  | case3 i hi => omega

/-- The name and the value of a header, blanks around them cut off. -/
def header (line : List UInt8) : Except Fault (String × String) :=
  match Text.ofUtf8? line with
  | none => .error (.malformed .notText)
  | some text =>
    let cs := text.toList
    if '\r' ∈ cs then .error (.malformed .strayReturn)
    else if ':' ∉ cs then .error (.malformed (.noColon text))
    else
      let name := cs.takeWhile (· ≠ ':')
      let value := (cs.dropWhile (· ≠ ':')).drop 1
      .ok (String.ofList (Text.trimChars name), String.ofList (Text.trimChars value))

/-- Whether a header's name is that of the payload's length, whatever the case of its letters. -/
def isLengthName (name : String) : Bool :=
  name.toList.map Char.toLower = "content-length".toList

/-- The number that a text of decimal digits spells, if it fits 64 bits. -/
def length? (value : String) : Option Nat :=
  let cs := value.toList
  if cs.isEmpty || cs.any fun c => !('0' ≤ c && c ≤ '9') then none
  else Decimal.valueWithin? (UInt64.size - 1) (cs.map fun c => c.toNat - 48)

/-- The length that a header line tells, if it is about the length. -/
def lengthOfLine (limit : Nat) (line : List UInt8) : Except Fault (Option Nat) := do
  let (name, value) ← header line
  if isLengthName name then
    match length? value with
    | none => .error (.lengthInvalid value)
    | some n => if limit < n then .error (.tooLarge n) else .ok (some n)
  else .ok none

/-- Reads header lines from a place on, up to an empty one. Gives the length told last, if any, and
the place after the empty line; `none` if the buffer ends before that. -/
def headers (limit : Nat) (buffer : Array UInt8) (length : Option Nat) (i : Nat) :
    Except Fault (Option (Option Nat × Nat)) :=
  match h : lineFeed? buffer i with
  | none =>
    if maxHeaderLine < buffer.size - i then .error (.malformed .lineTooLong) else .ok none
  | some j =>
    have := lineFeed?_place h
    let line := (buffer.extract i j).toList
    match line.getLast? with
    | some 13 =>
      match line.dropLast with
      | [] => .ok (some (length, j + 1))
      | line =>
        match lengthOfLine limit line with
        | .error fault => .error fault
        | .ok told => headers limit buffer (told.or length) (j + 1)
    | _ => .error (.malformed .bareLineFeed)
termination_by buffer.size - i

theorem headers_place {limit : Nat} {buffer : Array UInt8} {length told : Option Nat} {i j : Nat}
    (h : headers limit buffer length i = .ok (some (told, j))) : i < j ∧ j ≤ buffer.size := by
  fun_induction headers limit buffer length i with
  | case1 | case2 => simp at h
  | case3 length i k hk hp line hl hd =>
    simp only [Except.ok.injEq, Option.some.injEq, Prod.mk.injEq] at h
    omega
  | case4 => simp at h
  | case5 length i k hk hp line hl l hd told' ih =>
    have := ih h
    omega
  | case6 => simp at h

/-- What stands in a buffer from some place on. -/
inductive Scan where
  /-- Perhaps the beginning of a frame; the place after the empty lines before it. -/
  | waiting (start : Nat)
  /-- A frame; its payload and the place after it. -/
  | frame (payload : List UInt8) (stop : Nat)
  /-- Something that no frame starts with. -/
  | broken (fault : Fault)

/-- Looks for a frame at a place in a buffer. -/
def scan (limit : Nat) (buffer : Array UInt8) (i : Nat) : Scan :=
  let start := skipEmptyLines buffer i
  match headers limit buffer none start with
  | .error fault => .broken fault
  | .ok none => .waiting start
  | .ok (some (none, _)) => .broken .lengthMissing
  | .ok (some (some n, j)) =>
    if buffer.size - j < n then .waiting start
    else .frame (buffer.extract j (j + n)).toList (j + n)

theorem scan_waiting_place {limit : Nat} {buffer : Array UInt8} {i start : Nat}
    (h : scan limit buffer i = .waiting start) : i ≤ start ∧ start ≤ max i buffer.size := by
  have hs := skipEmptyLines_place buffer i
  simp only [scan] at h
  split at h
  · simp at h
  · simp only [Scan.waiting.injEq] at h
    omega
  · simp at h
  · split at h
    · simp only [Scan.waiting.injEq] at h
      omega
    · simp at h

theorem scan_frame_place {limit : Nat} {buffer : Array UInt8} {i stop : Nat}
    {payload : List UInt8} (h : scan limit buffer i = .frame payload stop) :
    i < stop ∧ stop ≤ buffer.size := by
  have hs := skipEmptyLines_place buffer i
  simp only [scan] at h
  split at h
  · simp at h
  · simp at h
  · simp at h
  · rename_i n j hh
    have := headers_place hh
    split at h
    · simp at h
    · simp only [Scan.frame.injEq] at h
      omega

end PeerRpc.Frame
