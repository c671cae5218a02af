import Std.Time.DateTime.Timestamp
import ClassScript.CommandLine

namespace ClassScript.CommandLine

def FileFault.ofError (access : FileAccess) : IO.Error → FileFault
  | .noFileOrDirectory _ code text | .alreadyExists _ code text | .otherError code text
  | .resourceBusy code text | .resourceVanished code text | .unsupportedOperation code text
  | .hardwareFault code text | .unsatisfiedConstraints code text | .illegalOperation code text
  | .protocolError code text | .timeExpired code text | .interrupted _ code text
  | .invalidArgument _ code text | .permissionDenied _ code text | .resourceExhausted _ code text
  | .inappropriateType _ code text | .noSuchThing _ code text => ⟨access, text, code.toNat⟩
  | .unexpectedEof => ⟨access, "unexpected end of file", 0⟩
  | .userError text => ⟨access, text, 0⟩

def readSource (file : String) : IO (Except FileFault (List UInt8)) := do
  match ← (IO.FS.Handle.mk file .read).toBaseIO with
  | .error e => return .error (.ofError .open e)
  | .ok handle =>
    match ← handle.readBinToEnd.toBaseIO with
    | .error e => return .error (.ofError .read e)
    | .ok bytes => return .ok bytes.toList

def readNamed (args : List String) : IO (Except FileFault (List UInt8)) := do
  match Invocation.ofArgs args with
  | .ok ⟨_, some file, _⟩ => readSource file
  | _ => return .error .missing

end ClassScript.CommandLine

def main (args : List String) : IO UInt32 := do
  let contents ← ClassScript.CommandLine.readNamed args
  let now ← Std.Time.Timestamp.now
  let time := ClassScript.CommandLine.clockFrom now.toMillisecondsSinceUnixEpoch.val
  let report := ClassScript.CommandLine.report args time fun _ => contents
  (← IO.getStdout).putStr report.stdout
  (← IO.getStderr).putStr report.stderr
  return UInt32.ofNat report.code
