import HeaderSymbols.Layout.Walk
import HeaderSymbols.Source.Reading

/-!
# Converting a header

A source is read into a model, the document is laid out, and after it the kernel's event
and time structures, each at address 0. When nothing was wrong anywhere, the output is a
prologue that names the target, and the lines laid out; otherwise the conversion fails
with everything that was wrong, in the order in which it was met.
-/
namespace HeaderSymbols

/-- What the prologue says. -/
structure Options where
  tool : String
  target : String
  visibility : String
  deriving DecidableEq, Repr

namespace Options

/-- The options where nothing else is asked for. -/
def standard : Options := ⟨"f256conv", "f256", "public"⟩

def prologue (o : Options) : String :=
  "; This file is automatically converted to Accelerate syntax by " ++ o.tool ++ ".\n" ++
  "; Do not edit manually.\n" ++
  "; Comments describing structures lost their spot in conversion.\n" ++
  "\n" ++
  ".target \"" ++ o.target ++ "\"\n" ++
  ".visibility " ++ o.visibility ++ "\n" ++
  "\n"

end Options

/-- The structures laid out after the document: the namespace of each, and its registered
name. -/
def trailers : List (String × String) :=
  [("kernel_event", "kernel_event_event_t"), ("kernel_time", "kernel_time_t")]

def Emitter.trailers (m : Model) (e : Emitter) : Emitter :=
  HeaderSymbols.trailers.foldl (fun e t => (e.named m t.1 t.2 0).2) e

/-- A source converted. -/
structure Conversion where
  output : String
  /-- The number of lines of the source. -/
  lines : Nat
  /-- The number of symbols in the output. -/
  symbols : Nat
  deriving DecidableEq, Repr

/-- The emitter after the document and the structures that follow it. -/
def Emitter.ofModel (m : Model) : Emitter := (Emitter.new.document m).2.trailers m

/-- Converts a source that is known by a file name. -/
def convert (o : Options) (file source : String) : Except Failure Conversion :=
  let lines := Line.ofSource source
  let reading := Reading.ofLines lines
  let e := Emitter.ofModel reading.model
  let log := Log.ofFindings file (reading.findings ++ e.findings).toList
  if log.isEmpty then .ok ⟨o.prologue ++ e.output, lines.length, e.symbols⟩
  else .error (.ofLog log)

end HeaderSymbols
