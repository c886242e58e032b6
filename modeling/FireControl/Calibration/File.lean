import FireControl.Bytes
import FireControl.Calibration.Checksum
import FireControl.Calibration.Table
import FireControl.IoFault
import FireControl.Text.Digits

/-!
# The calibration file

Fifty-four bytes: the checksum of the rest, then every value of the table as two bytes. The length
is judged first, then the checksum; a file that passes both is a table.
-/

namespace FireControl.Calibration

/-- Why a table could not be read, written or addressed. -/
inductive Fault where
  | io (kind : IoKind)
  | badLength (found expected : Nat)
  | checksumMismatch (stored computed : UInt32)
  | noSuchCell (cause : NoSuchCell)
  deriving DecidableEq, Repr

/-- A word as eight hexadecimal digits. -/
def wordText (w : UInt32) : String := "0x" ++ Text.hexText 8 w.toNat

def Fault.name : Fault → String
  | .io _ => "Io"
  | .badLength _ _ => "BadLength"
  | .checksumMismatch _ _ => "CrcMismatch"
  | .noSuchCell _ => "IndexOutOfRange"

/-- The text of a fault. Failures of the file system carry their own description, which is left to
whoever reports them. -/
def Fault.message : Fault → String
  | .io kind => "calibration file I/O: " ++ kind.name
  | .badLength found expected => s!"calibration file is {found} bytes, expected {expected}"
  | .checksumMismatch stored computed =>
    s!"calibration CRC mismatch: stored {wordText stored}, computed {wordText computed}"
  | .noSuchCell cause => cause.message

namespace Table

def fileLength : Nat := 54

def payload (t : Table) : Bytes := t.values.flatMap Bytes.ofInt16

def checksum (t : Table) : UInt32 := Calibration.checksum t.payload

def encode (t : Table) : Bytes := Bytes.ofWord t.checksum ++ t.payload

/-- The value at place `i` of a payload. -/
def valueAt (payload : Bytes) (i : Nat) : Int16 := Bytes.toInt16 ((payload.drop (2 * i)).take 2)

/-- The table whose values a payload holds: five drops, then four leads for each distance. -/
def ofPayload (payload : Bytes) : Table :=
  { drop := .ofFn fun d => valueAt payload d
    lead := .ofFn fun d => .ofFn fun v => valueAt payload (5 + 4 * d + v) }

/-- Reads a calibration file. -/
def decode (bytes : Bytes) : Except Fault Table :=
  if bytes.length ≠ fileLength then .error (.badLength bytes.length fileLength)
  else
    let stored := Bytes.toWord (bytes.take 4)
    let computed := Calibration.checksum (bytes.drop 4)
    if stored ≠ computed then .error (.checksumMismatch stored computed)
    else .ok (ofPayload (bytes.drop 4))

end Table

end FireControl.Calibration
