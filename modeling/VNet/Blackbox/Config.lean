import VNet.Lib.Exec
import VNet.Lib.Maps

namespace VNet.Blackbox

/-- The bytes of a `std::string` or of a file, one character each. -/
abbrev Text := List Char

/-- `Config`. Addresses are kept as they lie in memory, in network order. -/
structure Config where
  nameToIp : FiniteMap Text UInt32
  ipToName : FiniteMap UInt32 Text
  agentAcl : FiniteMap UInt32 (Finset UInt32)
  internetAcl : FiniteMap UInt32 (Finset UInt32)

structure Line where
  num : ℕ
  first : Text
  second : Text
  deriving DecidableEq, Repr

inductive LoadError
  | cannotOpen
  | expectedTwoTokens (num : ℕ) (raw : Text)
  | invalidIpv4 (num : ℕ) (second : Text)
  | duplicateIp (num : ℕ) (second : Text)
  | duplicateAgentName (num : ℕ) (first : Text)
  | unknownAgent (num : ℕ) (name : Text)
  | invalidInternetIp (num : ℕ) (second : Text)
  deriving DecidableEq, Repr

namespace Config

def empty : Config := ⟨∅, ∅, ∅, ∅⟩

/-- `std::getline` until it fails: a last line needs no newline, and nothing
follows a newline at the end of the file. -/
def getlines : Text → List Text
  | [] => []
  | c :: cs =>
    if c = '\n' then [] :: getlines cs
    else match getlines cs with
      | [] => [[c]]
      | l :: ls => (c :: l) :: ls

/-- `isspace` in the "C" locale. -/
def isSpace (c : Char) : Bool := c ∈ [' ', '\t', '\n', '\x0b', '\x0c', '\r']

/-- One `iss >> token`: the token and what is left of the stream. -/
def extract (s : Text) : Text × Text :=
  ((s.dropWhile isSpace).takeWhile fun c => !isSpace c,
    (s.dropWhile isSpace).dropWhile fun c => !isSpace c)

/-- The body of the `while` in `load`; blank lines and comments give no line. -/
def readLine (num : ℕ) (raw : Text) : Except LoadError (Option Line) :=
  match raw.dropWhile fun c => c = ' ' || c = '\t' with
  | [] => .ok none
  | c :: cs =>
    if c = '#' then .ok none
    else
      let first := extract (c :: cs)
      let second := extract first.2
      if first.1 = [] ∨ second.1 = [] then .error (.expectedTwoTokens num raw)
      else .ok (some ⟨num, first.1, second.1⟩)

def readLines : ℕ → List Text → Except LoadError (List Line)
  | _, [] => .ok []
  | num, raw :: raws => do
    let line ← readLine num raw
    let lines ← readLines (num + 1) raws
    pure (line.toList ++ lines)

/-- `s.c_str()` for a C function: up to the first NUL. -/
def cStr (s : Text) : Text := s.takeWhile fun c => c ≠ '\x00'

def internetPrefix : Text := [':', ':', 'i', 'n', 't', 'e', 'r', 'n', 'e', 't', ':']

section
variable (inetPton : Text → Option UInt32)

def ipv4 (s : Text) : Option UInt32 := inetPton (cStr s)

def isIpv4 (s : Text) : Bool := (ipv4 inetPton s).isSome

def parseIpv4 (s : Text) : UInt32 := (ipv4 inetPton s).getD 0

/-- Pass 1 on one line: IP assignments. -/
def assignIp (l : Line) : Exec Config LoadError Unit :=
  if !isIpv4 inetPton l.second then pure ()
  else if parseIpv4 inetPton l.second = 0 then Exec.fault (.invalidIpv4 l.num l.second)
  else do
    let c ← Exec.look id
    if (c.ipToName.lookup (parseIpv4 inetPton l.second)).isSome then
      Exec.fault (.duplicateIp l.num l.second)
    else if (c.nameToIp.lookup l.first).isSome then
      Exec.fault (.duplicateAgentName l.num l.first)
    else
      Exec.change fun c => { c with
        nameToIp := c.nameToIp.insert l.first (parseIpv4 inetPton l.second)
        ipToName := c.ipToName.insert (parseIpv4 inetPton l.second) l.first }

/-- Pass 2 on one line: ACL rules. -/
def addRule (l : Line) : Exec Config LoadError Unit :=
  if isIpv4 inetPton l.second then pure ()
  else do
    let c ← Exec.look id
    match c.nameToIp.lookup l.first with
    | none => Exec.fault (.unknownAgent l.num l.first)
    | some srcIp =>
      if internetPrefix <+: l.second then
        if parseIpv4 inetPton (l.second.drop internetPrefix.length) = 0 then
          Exec.fault (.invalidInternetIp l.num l.second)
        else
          Exec.change fun c => { c with
            internetAcl := c.internetAcl.addMember srcIp
              (parseIpv4 inetPton (l.second.drop internetPrefix.length)) }
      else match c.nameToIp.lookup l.second with
        | none => Exec.fault (.unknownAgent l.num l.second)
        | some dstIp =>
          Exec.change fun c => { c with
            agentAcl := (c.agentAcl.addMember srcIp dstIp).addMember dstIp srcIp }

def addLines (lines : List Line) : Exec Config LoadError Unit := do
  Exec.forEach (assignIp inetPton) lines
  Exec.forEach (addRule inetPton) lines

/-- `Config::load`, with the content of the file, if it can be opened. The
tables are cleared first and keep what was entered before an error. -/
def load (file : Option Text) (c : Config) : Except LoadError Unit × Config :=
  match file with
  | none => (.error .cannotOpen, c)
  | some text =>
    match readLines 1 (getlines text) with
    | .error e => (.error e, empty)
    | .ok lines => addLines inetPton lines empty

end

def findAgentForIp (c : Config) (ip : UInt32) : Text := (c.ipToName.lookup ip).getD []

def findIpForAgent (c : Config) (name : Text) : UInt32 := (c.nameToIp.lookup name).getD 0

def agents (c : Config) : FiniteMap Text UInt32 := c.nameToIp

def canAgentsCommunicate (c : Config) (src dst : UInt32) : Bool := dst ∈ c.agentAcl.members src

def canReachInternetIp (c : Config) (agent internet : UInt32) : Bool :=
  internet ∈ c.internetAcl.members agent

def hasAnyInternetAccess (c : Config) (agent : UInt32) : Bool :=
  decide (c.internetAcl.members agent ≠ ∅)

end Config

end VNet.Blackbox
