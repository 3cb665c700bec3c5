import QuantumBoard.Cell.Registry

/-! The cells that the board knows, family by family. -/

namespace QuantumBoard.Catalog

/-- A cell on one row. -/
def single (id : String) (kind : CellKind) : Cell := ⟨id, 1, kind⟩

/-- Cells of the same kind for each of the sizes, which end their identifiers. -/
def sized (sizes : List Nat) (name : String) (kind : CellKind) : List Cell :=
  sizes.map fun n => ⟨name ++ toString n, n, kind⟩

/-- The sizes of a register. -/
def registerSizes : List Nat := List.range' 1 16

def registers (name : String) (kind : CellKind) : List Cell := sized registerSizes name kind

def axes : List (String × Axis) := [("X", .x), ("Y", .y), ("Z", .z)]

def controls : List Cell :=
  [single "•" (.control none),
    single "◦" (.control (some (.pauli .x))),
    single "⊕" (.control (some (Axis.y.fixedPower 0.5))),
    single "⊖" (.control (some (Axis.y.fixedPower (-0.5)))),
    single "⊗" (.control (some (Axis.x.fixedPower (-0.5)))),
    single "(/)" (.control (some (Axis.x.fixedPower 0.5))),
    single "xpar" (.parity (some (Axis.y.fixedPower 0.5))),
    single "ypar" (.parity (some (Axis.x.fixedPower (-0.5)))),
    single "zpar" (.parity none)]

def inputs : List Cell :=
  registers "inputA" (.input .a false) ++ registers "inputB" (.input .b false) ++
    registers "inputR" (.input .r false) ++ registers "revinputA" (.input .a true) ++
    registers "revinputB" (.input .b true)

/-- Cells on one row that have no operations, for a common reason. -/
def refused (reason : String) (ids : List String) : List Cell :=
  ids.map fun id => single id (.unsupported reason)

/-- Families of cells that have no operations, for a common reason. -/
def refusedFamilies (reason : String) (names : List String) : List Cell :=
  names.flatMap fun name => registers name (.unsupported reason)

def unsupported : List Cell :=
  refused "not a physical gate" ["__error__", "__unstable__UniversalNot"] ++
    refused "post-selection is not supported"
      ["|0⟩⟨0|", "|1⟩⟨1|", "|+⟩⟨+|", "|-⟩⟨-|", "|X⟩⟨X|", "|/⟩⟨/|", "0"] ++
    refused "classical feedback is not supported"
      ["XDetectControlReset", "YDetectControlReset", "ZDetectControlReset"] ++
    refused "discrete parameter" ["X^⌈t⌉", "X^⌈t-¼⌉"] ++
    refusedFamilies "discrete parameter" ["Counting", "Uncounting", ">>t", "<<t"] ++
    refusedFamilies "modular arithmetic is not supported"
      ["incmodR", "decmodR", "+AmodR", "-AmodR", "+ABmodR", "-ABmodR", "*AmodR", "/AmodR",
        "*BToAmodR", "/BToAmodR"] ++
    refused "cross column effects" ["setA", "setB", "setR"] ++
    refusedFamilies "deprecated; use +=A instead" ["add"] ++
    refusedFamilies "deprecated; use -=A instead" ["sub"] ++
    refusedFamilies "deprecated; use +=AB instead" ["c+=ab"] ++
    refusedFamilies "deprecated; use -=AB instead" ["c-=ab"]

def scalars : List Cell :=
  [single "…" .identity,
    single "NeGate" (.scalar ⟨-1, 0⟩),
    single "i" (.scalar ⟨0, 1⟩),
    single "-i" (.scalar ⟨-0.0, -1⟩),
    single "√i" (.scalar ⟨0.7071067811865476, 0.7071067811865475⟩),
    single "√-i" (.scalar ⟨0.7071067811865476, -0.7071067811865475⟩)]

def measurements : List Cell :=
  [single "Measure" (.measurement none),
    single "ZDetector" (.measurement none),
    single "YDetector" (.measurement (some (Axis.x.fixedPower (-0.5)))),
    single "XDetector" (.measurement (some .hadamard))]

def fixedPowers : List (String × Float) :=
  [("½", 1.0 / 2.0), ("⅓", 1.0 / 3.0), ("¼", 1.0 / 4.0), ("⅛", 1.0 / 8.0),
    ("⅟₁₆", 1.0 / 16.0), ("⅟₃₂", 1.0 / 32.0), ("⅟₆₄", 1.0 / 64.0), ("⅟₁₂₈", 1.0 / 128.0)]

/-- The angle of a full turn in a unit of time. -/
def turn : Expr := .binary .mul (.binary .mul (.constant 2) .pi) .time

def rotations : List Cell :=
  [single "H" (.gate .hadamard), single "X" (.gate (.pauli .x)), single "Y" (.gate (.pauli .y)),
      single "Z" (.gate (.pauli .z))] ++
    axes.flatMap (fun (name, axis) => fixedPowers.flatMap fun (glyph, power) =>
      [single (name ++ "^" ++ glyph) (.gate (axis.fixedPower power)),
        single (name ++ "^-" ++ glyph) (.gate (axis.fixedPower (-power)))]) ++
    axes.flatMap (fun (name, axis) =>
      [single (name ++ "^t") (.gate (.power axis .time)),
        single (name ++ "^-t") (.gate (.power axis (.neg .time))),
        single ("e^i" ++ name ++ "t") (.gate (.rotation axis turn)),
        single ("e^-i" ++ name ++ "t") (.gate (.rotation axis (.neg turn)))]) ++
    axes.flatMap fun (name, axis) =>
      [single (name ++ "^ft") (.formula axis false "sin(pi*t)"),
        single ("R" ++ axis.letter ++ "ft") (.formula axis true "pi*t*t")]

def inputRotations : List Cell :=
  axes.map (fun (name, axis) => single (name ++ "^(A/2^n)") (.inputRotation axis 1)) ++
    axes.map fun (name, axis) => single (name ++ "^(-A/2^n)") (.inputRotation axis (-1))

def rearrangements : List Cell :=
  [("<<", .rotateLeft), (">>", .rotateRight), ("rev", .reverse), ("weave", .interleave),
    ("split", .deinterleave)].flatMap fun (name, kind) =>
      sized (List.range' 2 15) name (.rearrangement kind)

def displays : List Cell :=
  registers "Amps" .display ++ [single "Chance" .display] ++
    sized (List.range' 2 15) "Chance" .display ++ registers "Sample" .display ++
    [single "Density" .display] ++ sized (List.range' 1 8) "Density" .display ++
    [single "Bloch" .display]

def transforms : List (String × Transform) :=
  [("inc", .increment), ("dec", .decrement), ("+=A", .addA), ("-=A", .subA),
    ("+=AA", .addSquare), ("-=AA", .subSquare), ("+=AB", .addProduct), ("-=AB", .subProduct),
    ("^=A", .xorA), ("+cntA", .addCount), ("-cntA", .subCount), ("Flip<A", .flipBelow),
    ("*A", .mulA), ("/A", .divA)]

def comparisons : List (String × Comparison) :=
  [("^A<B", .less), ("^A>B", .greater), ("^A>=B", .greaterOrEqual), ("^A<=B", .lessOrEqual),
    ("^A=B", .equal), ("^A!=B", .notEqual)]

def arithmetic : List Cell :=
  transforms.flatMap (fun (name, t) => registers name (.arithmetic t)) ++
    comparisons.map fun (id, c) => single id (.arithmetic (.compare c))

def spectra : List Cell :=
  registers "QFT" (.spectrum (.fourier false)) ++ registers "QFT†" (.spectrum (.fourier true)) ++
    registers "PhaseGradient" (.spectrum (.gradient 0.5)) ++
    registers "PhaseUngradient" (.spectrum (.gradient (-0.5))) ++
    registers "grad^t" (.spectrum (.timedGradient 1)) ++
    registers "grad^-t" (.spectrum (.timedGradient (-1)))

/-- All families in order. -/
def all : List Cell :=
  [single "Swap" .swap] ++ controls ++ inputs ++ unsupported ++ scalars ++ measurements ++
    rotations ++ inputRotations ++ rearrangements ++ displays ++ arithmetic ++ spectra

end QuantumBoard.Catalog

namespace QuantumBoard

/-- The registry of the cells that the board knows. -/
def Registry.standard : Registry := Registry.ofList Catalog.all

end QuantumBoard
