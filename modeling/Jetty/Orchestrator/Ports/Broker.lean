import Jetty.Core.Effects
import Jetty.Orchestrator.Config.Validate

/-!
# The port broker

`allocate_ports` with its probe sockets. The kernel is a parameter: which ports others hold, from
one `bind` call to the next, and which port it picks for port 0.
-/

namespace Jetty.Orchestrator.Ports

open Effects

inductive Family
  | inet
  | inet6
deriving DecidableEq, Repr

/-- A socket of the broker; its port is 0 until it is bound. -/
structure Socket where
  family : Family
  port : ℕ
deriving DecidableEq, Repr

/-- The host: the address families it has, the pairs of family and port that others hold at the
time of each `bind` call, and what it picks for port 0, next to the sockets already open. -/
structure Kernel where
  supports : Family → Bool
  taken : ℕ → Family → ℕ → Bool
  pick : ℕ → Family → List Socket → Option ℕ
  pick_range {time : ℕ} {family : Family} {opened : List Socket} {port : ℕ}
    (h : pick time family opened = some port) : 1 ≤ port ∧ port ≤ 65535
  pick_taken {time : ℕ} {family : Family} {opened : List Socket} {port : ℕ}
    (h : pick time family opened = some port) : taken time family port = false
  pick_opened {time : ℕ} {family : Family} {opened : List Socket} {port : ℕ}
    (h : pick time family opened = some port) : ⟨family, port⟩ ∉ opened

/-- `PortError`. -/
inductive PortError
  | noLoopback
  | clash (name other : String) (port : ℕ)
  | noAuto (name : String)
  | inUse (name : String) (port : ℕ)
  | exhausted (name : String) (low high : ℕ)
deriving DecidableEq, Repr

def PortError.message : PortError → String
  | noLoopback => "no loopback address to probe ports on"
  | clash name other port =>
    s!"ports.{name} and ports.{other} both resolve to fixed port {port}"
  | noAuto name => s!"ports.{name}: no port free on every loopback family for \"auto\""
  | inUse name port => s!"ports.{name}: port {port} is already in use; refusing " ++
      s!"to reclaim it — stop whatever holds it, or use \"auto\" or \"{port}+\""
  | exhausted name low high => s!"ports.{name}: no free port in {low}-{high}"

/-- What `allocate_ports` raises: a `PortError`, the `OSError` of a socket that cannot be made,
the `TypeError` for a malformed spec, or the `ValueError` of `int` on a text. -/
inductive Raised
  | port (error : PortError)
  | os
  | malformed
  | spec (error : ParseError)

/-- The number of `bind` calls so far, the open sockets, and the list `holds`. -/
structure Probes where
  clock : ℕ := 0
  opened : List Socket := []
  holds : List Socket := []

abbrev Probing := Program Raised Probes

variable (k : Kernel)

/-- The port that a `bind` call gets. -/
def Kernel.bind (time : ℕ) (family : Family) (port : ℕ) (opened : List Socket) : Option ℕ :=
  if port = 0 then k.pick time family opened
  else if k.taken time family port || decide (⟨family, port⟩ ∈ opened) then none
  else some port

/-- `socket.socket`; nothing where it raises `OSError`. -/
def openSocket (family : Family) : Probing (Option Socket) := do
  if k.supports family then
    modify fun s => { s with opened := ⟨family, 0⟩ :: s.opened }
    return some ⟨family, 0⟩
  else return none

/-- `bind`, on the loopback address of the family, and `listen`; nothing where they raise
`OSError`. -/
def bindSocket (sock : Socket) (port : ℕ) : Probing (Option Socket) := do
  let s ← get
  match k.bind s.clock sock.family port s.opened with
  | some port =>
    let bound : Socket := { sock with port := port }
    set { s with clock := s.clock + 1, opened := bound :: s.opened.erase sock }
    return some bound
  | none =>
    set { s with clock := s.clock + 1 }
    return none

def Probes.close (s : Probes) (sock : Socket) : Probes :=
  { s with opened := s.opened.erase sock }

def close (sock : Socket) : Probing Unit := modify fun s => s.close sock

/-- `holds.extend`. -/
def hold (socks : List Socket) : Probing Unit :=
  modify fun s => { s with holds := s.holds ++ socks }

/-- `_loopbacks`, over `_LOOPBACKS`. -/
def loopbacks : List Family → Probing (List Family)
  | [] => return []
  | family :: families => do
    match ← openSocket k family with
    | none => loopbacks families
    | some sock =>
      match ← bindSocket k sock 0 with
      | none =>
        close sock
        loopbacks families
      | some bound =>
        close bound
        return family :: (← loopbacks families)

/-- `_LOOPBACKS`. -/
def knownLoopbacks : List Family := [.inet, .inet6]

/-- `_bind_one`. -/
def bindOne (family : Family) (port : ℕ) : Probing (Option Socket) := do
  match ← openSocket k family with
  | none => throw .os
  | some sock =>
    match ← bindSocket k sock port with
    | some bound => return some bound
    | none =>
      close sock
      return none

/-- `_try_bind`; `held`: the sockets of the families before. -/
def tryBind (port : ℕ) : List Family → List Socket → Probing (Option (List Socket))
  | [], held => return some held
  | family :: families, held => do
    match ← bindOne k family port with
    | none =>
      modify fun s => held.foldl Probes.close s
      return none
    | some sock => tryBind port families (held ++ [sock])

/-- `_AUTO_ATTEMPTS`. -/
def autoAttempts : ℕ := 64

/-- The loop of `_bind_auto`, the attempts that are left first. A rejected candidate stays in
`holds`. -/
def bindAuto (name : String) (lead : Family) (rest : List Family) : ℕ → Probing ℕ
  | 0 => throw (.port (.noAuto name))
  | attempts + 1 => do
    match ← bindOne k lead 0 with
    | none => throw (.port (.noAuto name))
    | some sock =>
      hold [sock]
      match ← tryBind k sock.port rest [] with
      | some socks =>
        hold socks
        return sock.port
      | none => bindAuto name lead rest attempts

/-- The loop over the candidates of a range, the number of those that are left first. -/
def scan (families : List Family) : ℕ → ℕ → Probing (Option ℕ)
  | 0, _ => return none
  | n + 1, candidate => do
    match ← tryBind k candidate families [] with
    | some socks =>
      hold socks
      return some candidate
    | none => scan families n (candidate + 1)

/-- The ports given so far, and the pinned ones with their names. -/
structure Batch where
  allocated : List (String × ℕ) := []
  fixed : List (ℕ × String) := []

/-- The check for two names that pin the same port. -/
def checkFixed (name : String) (fixed : List (ℕ × String)) :
    PortRange → Except PortError (List (ℕ × String))
  | .auto => .ok fixed
  | .range low high =>
    if low = high then
      match fixed.lookup low with
      | some other => .error (.clash name other low)
      | none => .ok ((low, name) :: fixed)
    else .ok fixed

/-- One round of the loop over the names. -/
def serve (lead : Family) (rest : List Family) (batch : Batch) (entry : String × Toml) :
    Probing Batch := do
  let (name, want) := entry
  match parsePortSpec want with
  | .error error => throw (.spec error)
  | .ok none => throw .malformed
  | .ok (some parsed) =>
    match checkFixed name batch.fixed parsed with
    | .error error => throw (.port error)
    | .ok fixed =>
      match parsed with
      | .auto =>
        let port ← bindAuto k name lead rest autoAttempts
        return { allocated := batch.allocated ++ [(name, port)], fixed := fixed }
      | .range low high =>
        match ← scan k (lead :: rest) (high + 1 - low) low with
        | some port => return { allocated := batch.allocated ++ [(name, port)], fixed := fixed }
        | none => throw (.port (if low = high then .inUse name low else .exhausted name low high))

/-- The `finally` clause. -/
def Probes.closeHolds (s : Probes) : Probes := s.holds.foldl Probes.close s

/-- `allocate_ports`; a map of specs has each name once. -/
def allocatePorts (spec : List (String × Toml)) : Probing (List (String × ℕ)) := do
  match ← loopbacks k knownLoopbacks with
  | [] => throw (.port .noLoopback)
  | lead :: rest =>
    let batch ← ensure (spec.foldlM (serve k lead rest) {}) Probes.closeHolds
    return batch.allocated

end Jetty.Orchestrator.Ports
