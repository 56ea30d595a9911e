import Ferry.Resource.Channel
import Ferry.Resource.Deployable

/-!
# Gate policy

Who may be in a channel. A refusal is an answer and never an error; what is
absent is refused.
-/
namespace Ferry.Policy

/-- Every annotation of the gate is there with its value; others do not matter. -/
def gateMatches (annotations gate : StringMap) : Bool :=
  gate.entries.all fun (key, value) => annotations.get? key = some value

/-- A gate that asks for annotations is not passed without any. -/
def passesGate (d : Deployable) (c : Channel) : Bool :=
  match c.gateAnnotations?, d.metadata.annotations with
  | none, _ => true
  | some _, none => false
  | some gate, some annotations => gateMatches annotations gate

/-- Whether a deployable rightfully resides in a channel. -/
def resides (d : Deployable) (c : Channel) : Bool := d.space = c.space && passesGate d c

/-- Whether the channel lets a deployable in from its source namespaces. It needs gates for that. -/
def invites (d : Deployable) (c : Channel) : Bool :=
  c.spec.gates.isSome && c.acceptsSource d.space

/-- Whether a deployable may be promoted into a channel. -/
def admits (d : Deployable) (c : Channel) : Bool :=
  (d.declares c.key || invites d c) && passesGate d c

/-- The residency verdict where either side may be absent. -/
def residency : Option Deployable → Option Channel → Bool
  | some d, some c => resides d c
  | _, _ => false

/-- The promotion verdict where either side may be absent. -/
def promotion : Option Deployable → Option Channel → Bool
  | some d, some c => admits d c
  | _, _ => false

end Ferry.Policy
