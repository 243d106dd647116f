import PeerRpc.Json.Fault

/-!
# What can go wrong with a byte stream

Faults in the frames themselves, and faults of the channel that carries them.
-/

namespace PeerRpc.Frame

/-- How a header breaks the rules. -/
inductive Malformation where
  /-- A line goes on without an end. -/
  | lineTooLong
  /-- A line feed without a carriage return before it. -/
  | bareLineFeed
  /-- A line that is not UTF-8. -/
  | notText
  /-- A carriage return inside a line. -/
  | strayReturn
  | noColon (line : String)
  /-- Any other reason, given in words. -/
  | other (reason : String)
deriving DecidableEq, Repr

/-- The longest header line, in bytes. -/
def maxHeaderLine : Nat := 8192

/-- The wording of a malformation. -/
def Malformation.message : Malformation → String
  | lineTooLong => "header line exceeds " ++ Json.Fault.count maxHeaderLine ++ " bytes"
  | bareLineFeed => "header line terminated by bare LF"
  | notText => "header line is not UTF-8"
  | strayReturn => "carriage return inside header field"
  | noColon line => "header without colon: " ++ line
  | other reason => reason

/-- A fault in a stream of frames. -/
inductive Fault where
  /-- A header line breaks the rules. -/
  | malformed (m : Malformation)
  /-- The headers do not tell the length of the payload. -/
  | lengthMissing
  /-- The length is not a decimal number of 64 bits. -/
  | lengthInvalid (value : String)
  /-- The length is beyond the limit. -/
  | tooLarge (size : Nat)
  /-- An envelope cannot be written. -/
  | json (fault : Json.Fault)
deriving Repr

namespace Fault

/-- The wording of a frame's fault. -/
def message : Fault → String
  | malformed m => "Malformed framing: " ++ m.message
  | lengthMissing => "Missing Content-Length header"
  | lengthInvalid value => "Invalid Content-Length: " ++ Text.quoted value
  | tooLarge size => "Message too large: " ++ Json.Fault.count size ++ " bytes"
  | json fault => "JSON error: " ++ fault.message

/-- The wordings of what lies behind a fault, the nearest first. -/
def causes : Fault → List String
  | json fault => [fault.message]
  | _ => []

end Fault

/-- A fault of the channel that carries the frames. -/
inductive ChannelFault where
  /-- Reading or writing bytes failed, for a reason given in words. -/
  | io (reason : String)
  /-- The frames are at fault. -/
  | frame (fault : Fault)
  /-- The channel is closed. -/
  | closed
deriving Repr

namespace ChannelFault

/-- The wording of a channel's fault. -/
def message : ChannelFault → String
  | io reason => "I/O error: " ++ reason
  | frame fault => "Codec error: " ++ fault.message
  | closed => "Transport closed"

/-- The wordings of what lies behind a fault, the nearest first. -/
def causes : ChannelFault → List String
  | io reason => [reason]
  | frame fault => fault.message :: fault.causes
  | closed => []

end ChannelFault

end PeerRpc.Frame
