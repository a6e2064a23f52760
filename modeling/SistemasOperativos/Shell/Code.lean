import SistemasOperativos.Descriptors.Code
import SistemasOperativos.Text.Stream
import SistemasOperativos.Text.Strtok

/-!
# The command loop

The loops of `terminal.c` and of `problema1.c`. A vector that is handed to `exec` is its
strings up to the NULL. The output is left out, and of the commands everything but what they
do to the input.
-/
namespace Shell

open Text
open Descriptors (File Process openPipe)

def buff : ℕ := 200

def lenBuff : ℕ := 1000

def space : Byte := 32

/-- `"exit"`. -/
def exit : List Byte := [101, 120, 105, 116]

abbrev Args := List (List Byte)

/-! ## A line -/

inductive Buf
  | ch
  | ch2
  deriving DecidableEq, Repr

abbrev State := Strtok Buf

/-- What `exec` gets of an array of pointers. -/
def argv : List (Option (List Byte)) → Option Args
  | [] => none
  | none :: _ => some []
  | some p :: parameters => (argv parameters).map (p :: ·)

/-- `if (parameters[0] != NULL) execvp(parameters[0], parameters)`. -/
def execvp (parameters : List (Option (List Byte))) : Option (Option Args) := do
  if (← parameters[0]?) = none then some none
  else some (some (← argv parameters))

/-- What the child hands to `exec`, if it calls it. -/
def child (ruta : Buf × ℕ) (st : State) : Option (Option Args) := do
  if space ∈ (← str (st.mem .ch)) then
    let st := st.set .ch2 (← strcpy (st.mem .ch2) (st.mem .ch))
    let (size, st) ← scan st .ch2 [space] (fun size _ => some (size + 1)) 1
    let parameters := List.replicate (size + 1) none
    let ((parameters, _), _) ← scan st .ch [space] (fun a p => push a (some p)) (parameters, 0)
    execvp parameters
  else some (some [← st.str ruta])

/-- What the loop does with a line. -/
inductive Turn
  | skip
  | exit
  | fork (args : Option Args)
  deriving DecidableEq, Repr

/-- The body of the loop up to `fork`, with a text in `ch`. -/
def turn (st : State) : Option (Turn × State) := do
  let text ← str (st.mem .ch)
  if text ≠ [newline] ∧ text.length ≠ 1 then
    let (ruta, st) ← strtok st (some (.ch, 0)) [newline]
    let ruta ← ruta
    if (← st.str ruta) = exit then some (.exit, st)
    else some (.fork (← child ruta st), st)
  else some (.skip, st)

/-! ## The input and the descriptors -/

/-- `chunk` is how much of the input a `read` gives at each offset. `found` tells of each call
of `exec` whether it finds its command, and `command` what this does to the input. -/
structure Session where
  chunk : ℕ → ℕ
  chunk_pos : ∀ offset, 0 < chunk offset
  found : ℕ → Bool
  command : ℕ → OpenFile → OpenFile

/-- What only one of the programs does with `fds`: before its loop, and after its `read`. -/
structure Program where
  before : Process → Process
  after : Process → Process

/-- Its `fds` has what was on the stack. -/
def terminal : Program where
  before := id
  after p := (p.close p.fds.1).close p.fds.2

def problema1 : Program where
  before := openPipe
  after := id

/-- The shell between two rounds; `calls` counts those of `exec`. -/
structure Parent where
  strings : State
  process : Process
  stdin : Stream
  calls : ℕ

/-- How much the next `read` of the standard input gives. The pipe of `problema1.c` is at its
end; an input that is closed or another file is not followed. -/
def incoming (e : Session) : Option File → Option (ℕ → ℕ)
  | some .stdin => some e.chunk
  | some (.read _) => some fun _ => 0
  | _ => none

/-- The descriptors of a child that comes back, at its `return`. -/
def childProcess (p : Process) : Process :=
  let p := p.dup2 p.fds.2 1
  (p.close p.fds.1).close p.fds.2

/-- No `exec` was called, or none that found its command. -/
def comesBack (e : Session) (calls : ℕ) : Option Args → Bool
  | none => true
  | some _ => !e.found calls

/-- The end of a child, as the parent finds the input after it. -/
def childExit (e : Session) (calls : ℕ) (args : Option Args) (p : Process) (stdin : Stream) : Stream :=
  if comesBack e calls args then
    if (childProcess p).table.file 0 = some .stdin then stdin.rewind else stdin
  else { stdin with file := e.command calls stdin.file }

/-- The descriptors of the parent while it waits. -/
def waiting (p : Process) : Process := (p.dup 0).2.dup2 p.fds.1 0

/-- `read(fds[0], buff_p, len_buff)`. -/
def readFds (e : Session) (p : Process) (stdin : Stream) : Stream :=
  if (waiting p).table.file p.fds.1 = some .stdin then
    { stdin with file := (stdin.file.read (min lenBuff (e.chunk stdin.file.offset))).2 }
  else stdin

/-- The descriptors of the parent after its turn; `stdin_copy` is the result of `dup(0)`. -/
def waited (prog : Program) (p : Process) : Process := (prog.after (waiting p)).dup2 (p.dup 0).1 0

/-- `fgets` and the body of the loop up to `fork`; nothing at the end of the input. -/
def next (e : Session) (st : Parent) : Option (Option (Turn × State × Stream)) := do
  let chunk ← incoming e (st.process.table.file 0)
  match st.stdin.fgets chunk buff (st.strings.mem .ch) with
  | none => some none
  | some (ch, stdin) =>
    let (t, strings) ← turn (st.strings.set .ch ch)
    some (some (t, strings, stdin))

/-- One round of the loop with the vectors that it hands to `exec`, or its end. -/
def round (e : Session) (prog : Program) (st : Parent) : Option (Option (List Args × Parent)) := do
  match ← next e st with
  | none => some none
  | some (.exit, _, _) => some none
  | some (.skip, strings, stdin) => some (some ([], { st with strings := strings, stdin := stdin }))
  | some (.fork args, strings, stdin) =>
    let stdin := childExit e st.calls args st.process stdin
    some (some (args.toList,
      { strings := strings
        process := waited prog st.process
        stdin := readFds e st.process stdin
        calls := st.calls + args.toList.length }))

/-- Both arrays are on the stack, with anything in them. -/
def arrays (ch ch2 : Vector Byte buff) : State where
  mem
    | .ch => ch.toList
    | .ch2 => ch2.toList
  saved := none

/-- Before the first round, where nothing of the input is read yet. -/
def start (prog : Program) (ch ch2 : Vector Byte buff) (p : Process) (input : OpenFile) : Parent where
  strings := arrays ch ch2
  process := prog.before p
  stdin := ⟨input, []⟩
  calls := 0

/-! ## Whole runs -/

inductive Reaches (e : Session) (prog : Program) (st : Parent) : Parent → Prop
  | refl : Reaches e prog st st
  | round {st' st'' : Parent} {args : List Args} (h : Reaches e prog st st')
      (hr : round e prog st' = some (some (args, st''))) : Reaches e prog st st''

/-- The loop comes to its end, and this is what was handed to `exec` until then. -/
inductive Executes (e : Session) (prog : Program) : Parent → List Args → Prop
  | ends {st : Parent} (h : round e prog st = some none) : Executes e prog st []
  | round {st st' : Parent} {args rest : List Args} (h : round e prog st = some (some (args, st')))
      (hrest : Executes e prog st' rest) : Executes e prog st (args ++ rest)

end Shell
