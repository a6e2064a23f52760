import SistemasOperativos.Text.Lines

/-!
# The copy loops

The loops of `nicoe.c`, `sck_servidor.c` and `sck_cliente.c`. A call is known by its
arguments and its result, which is not the code's choice.
-/
namespace Copy

open Text

def lenBuff : ℕ := 1000

/-- `count` is what `write` is asked for. -/
inductive Call
  | read (result : ℤ)
  | write (count result : ℤ)
  deriving DecidableEq, Repr

inductive Pc
  | read
  | write (numByt : ℤ) (buff : List Byte)
  | ended
  deriving DecidableEq, Repr

structure Loop where
  pc : Pc
  total : ℤ
  deriving DecidableEq, Repr

def Loop.start : Loop := ⟨.read, 0⟩

/-- A sum of type `int`, as the machine has it. -/
def int (n : ℤ) : ℤ := n.bmod (2 ^ 32)

/-- A loop between what it reads from and what it writes to. -/
structure Copying where
  input : List Byte
  loop : Loop
  output : List Byte
  deriving DecidableEq, Repr

/-- The next call of the loop. The result of `write` is not looked at. -/
def Copying.next (s : Copying) (a : Call) : Option Copying :=
  match s.loop.pc, a with
  | .read, .read numByt =>
    if numByt = 0 then some { s with loop := { s.loop with pc := .ended } }
    else some { s with
      input := s.input.drop numByt.toNat
      loop := ⟨.write numByt (s.input.take numByt.toNat), int (s.loop.total + numByt)⟩ }
  | .write numByt buff, .write count result =>
    if count = numByt then
      some { s with
        loop := { s.loop with pc := .read }
        output := s.output ++ buff.take result.toNat }
    else none
  | _, _ => none

/-- What POSIX lets a call without error return. An input that is empty but not `closed`
makes `read` wait. -/
def Call.Allowed (closed : Prop) (input : List Byte) : Call → Prop
  | .read result =>
    (input = [] ∧ closed ∧ result = 0) ∨ (1 ≤ result ∧ result ≤ lenBuff ∧ result ≤ input.length)
  | .write count result => 1 ≤ result ∧ result ≤ count

/-! ## One program -/

/-- The runs of `nicoe.c` up to some call. -/
inductive Nicoe (origen : List Byte) : List Call → Copying → Prop
  | start : Nicoe origen [] ⟨origen, .start, []⟩
  | call {tr : List Call} {s s' : Copying} {a : Call} (h : Nicoe origen tr s)
      (ha : a.Allowed True s.input) (hs : s.next a = some s') : Nicoe origen (tr ++ [a]) s'

/-! ## Two programs and a connection -/

inductive Side
  | server
  | client
  deriving DecidableEq, Repr

/-- `connection` is what is sent and not yet received. -/
structure Transfer where
  origen : List Byte
  server : Loop
  connection : List Byte
  client : Loop
  destino : List Byte
  deriving DecidableEq, Repr

namespace Transfer

def serverSide (s : Transfer) : Copying := ⟨s.origen, s.server, s.connection⟩

def clientSide (s : Transfer) : Copying := ⟨s.connection, s.client, s.destino⟩

def next (s : Transfer) : Side → Call → Option Transfer
  | .server, a => (s.serverSide.next a).map fun c =>
    { s with origen := c.input, server := c.loop, connection := c.output }
  | .client, a => (s.clientSide.next a).map fun c =>
    { s with connection := c.input, client := c.loop, destino := c.output }

/-- The server closes the connection after its loop. -/
def Allowed (s : Transfer) : Side → Call → Prop
  | .server, a => a.Allowed True s.origen
  | .client, a => a.Allowed (s.server.pc = .ended) s.connection

end Transfer

/-- The runs of `sck_servidor.c` with `sck_cliente.c`, in any order of their calls. -/
inductive Sck (origen : List Byte) : List (Side × Call) → Transfer → Prop
  | start : Sck origen [] ⟨origen, .start, [], .start, []⟩
  | call {tr : List (Side × Call)} {s s' : Transfer} {i : Side} {a : Call} (h : Sck origen tr s)
      (ha : s.Allowed i a) (hs : s.next i a = some s') : Sck origen (tr ++ [(i, a)]) s'

/-! ## Any results, errors too -/

/-- One iteration in which `read` returns `r` and `write` returns `w`, with its calls. A loop
that has ended makes none. What a failed `read` leaves in the buffer is not followed. -/
def Copying.iteration (s : Copying) (r w : ℤ) : List Call × Copying :=
  match s.next (.read r) with
  | none => ([], s)
  | some s' =>
    match s'.next (.write r w) with
    | none => ([.read r], s')
    | some s'' => ([.read r, .write r w], s'')

/-- The calls of the first `n` iterations, and the state after them. -/
def Copying.iterations (reads writes : ℕ → ℤ) (s : Copying) : ℕ → List Call × Copying
  | 0 => ([], s)
  | n + 1 =>
    let (tr, s) := s.iterations reads writes n
    let (calls, s) := s.iteration (reads n) (writes n)
    (tr ++ calls, s)

/-- From `origen` to `destino`. -/
def nicoe (reads writes : ℕ → ℤ) (origen : List Byte) : ℕ → List Call × Copying :=
  Copying.iterations reads writes ⟨origen, .start, []⟩

/-- From `origen` to `client_sockfd`. -/
def sckServidor (reads writes : ℕ → ℤ) (origen : List Byte) : ℕ → List Call × Copying :=
  Copying.iterations reads writes ⟨origen, .start, []⟩

/-- From `sockfd` to `destino`. -/
def sckCliente (reads writes : ℕ → ℤ) (sockfd : List Byte) : ℕ → List Call × Copying :=
  Copying.iterations reads writes ⟨sockfd, .start, []⟩

end Copy
