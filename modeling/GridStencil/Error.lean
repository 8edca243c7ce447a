import GridStencil.ElementType
import GridStencil.Grid.Interval
import GridStencil.Grid.Offset
import GridStencil.Literal
import GridStencil.Policy
import GridStencil.Source
import GridStencil.Text.Utf8

/-!
Everything that can go wrong with a stencil: causes, their kinds and their wording.

A cause says what happened in terms of the stencil; its kind and its sentence follow from it. An
error is a cause, the place in a source where it shows, and sometimes a remark printed below.
-/

namespace GridStencil

/-- The kinds that callers tell errors apart by. -/
inductive ErrorKind
  /-- The definition is malformed. -/
  | grammar
  /-- Vertical intervals are empty, overlap or are out of order. -/
  | interval
  /-- A value is read on a plane where it is not computed yet. -/
  | ordering
  /-- A declared external has no value. -/
  | externalResolution
  /-- A program cannot be turned into a kernel. -/
  | backendCompilation
  /-- Buffers, scalars or the domain of a call do not fit the stencil. -/
  | domainMismatch
  /-- The cache of compiled stencils is inconsistent. -/
  | cacheConsistency
  /-- An input file cannot be read. -/
  | invalidFile
  /-- Output cannot be written. -/
  | writeError
  /-- Anything else. -/
  | misc
deriving DecidableEq

namespace ErrorKind

/-- All kinds. -/
def all : List ErrorKind :=
  [grammar, interval, ordering, externalResolution, backendCompilation, domainMismatch,
    cacheConsistency, invalidFile, writeError, misc]

/-- The word for a kind. -/
def name : ErrorKind → String
  | grammar => "Grammar"
  | interval => "Interval"
  | ordering => "Ordering"
  | externalResolution => "ExternalResolution"
  | backendCompilation => "BackendCompilation"
  | domainMismatch => "DomainMismatch"
  | cacheConsistency => "CacheConsistency"
  | invalidFile => "InvalidFile"
  | writeError => "WriteError"
  | misc => "Misc"

/-- What a message of this kind starts with. -/
def heading : ErrorKind → String
  | grammar => "Grammar error: "
  | interval => "Interval error: "
  | ordering => "Ordering error: "
  | externalResolution => "External resolution error: "
  | backendCompilation => "Backend compilation error: "
  | domainMismatch => "Domain mismatch: "
  | cacheConsistency => "Cache consistency error: "
  | invalidFile => "Invalid file: "
  | writeError => "Failed to write output: "
  | misc => ""

end ErrorKind

/-- One of the three axes of the grid. -/
inductive Axis
  | i
  | j
  | k
deriving DecidableEq

/-- The letter of an axis. -/
def Axis.label : Axis → String
  | i => "I"
  | j => "J"
  | k => "K"

/-- What went wrong. -/
inductive Cause
  /-- A finding that is stated in words only. -/
  | stated (kind : ErrorKind) (text : String)
  -- reading a definition
  | expected (rules : List String)
  | unknownElementType (word : String)
  | integerOutOfRange
  | unknownFunction (name : String) (arguments : Nat)
  | argumentCount (name : String) (arguments : Nat)
  | duplicateMarker
  | fieldBehindMarker
  | scalarBeforeMarker
  -- resolving names
  | alreadyBound (name owner : String)
  | undefined (sort name : String)
  | unknownParameter (name stencil : String)
  | unknownPolicy (word : String)
  | boundNotInteger (name : String) (value : Literal)
  | shiftedAssignment (target : String)
  | assignedScalar (name : String)
  | assignedExternal (name : String)
  | assignedZeroDim (name : String)
  | shiftedExternal (name : String)
  | shiftedScalar (name : String)
  | shiftedZeroDim (name : String)
  | readBeforeAssigned (name : String)
  | assignedInOneBranch (name : String)
  | unresolvedExternal (name : String)
  -- analysing a program
  | readTooFar (field : String) (offset : Offset)
  | boundsTooFarApart (lower upper : AxisBound)
  | emptyInterval (interval : Interval) (block : Nat)
  | overlap (upper lower : Interval) (policy : Policy) (block : Nat)
  | listedAfter (next previous : Interval) (policy : Policy) (block : Nat)
  | selfRead (target : String) (offset : Offset) (policy : Policy) (block : Nat)
  | firstPlaneOutside (field : String) (dk : Int) (interval : Interval) (policy : Policy)
      (block : Nat)
  | growingRegion (fields : List String) (policy : Policy) (block : Nat)
  -- planning passes
  | duplicatePass (name : String)
  | duplicateAlias (name : String)
  | unknownMember (name : String)
  | unknownPass (name : String)
  -- building kernels
  | extentsMissing (stencil : String)
  | undeclaredTarget (name : String)
  | undeclaredField (name : String)
  | undeclaredScalar (name : String)
  | unknownBackend (word : String) (known : List String)
  -- calling kernels
  | bufferLength (shape : PerAxis Nat) (needed given : Nat)
  | tooFewPlanes (stencil : String) (needed given : Nat)
  | tooManyFields (stencil : String) (takes given : Nat)
  | noSuchField (stencil name : String)
  | fieldBoundTwice (name : String)
  | fieldUnbound (name stencil : String)
  | elementTypeDiffers (name : String) (declared given : ElementType)
  | outputReadOnly (name : String)
  | zeroDimShape (name : String) (shape : PerAxis Nat)
  | originTooSmall (name : String) (needed : Nat) (axis : Axis) (given : Nat)
  | endOverflows (name : String) (origin domain : Nat) (axis : Axis)
  | bufferTooSmall (name : String) (needed : Nat) (axis : Axis) (given : Nat)
  | noSuchScalar (stencil name : String)
  | scalarBoundTwice (name : String)
  | scalarUnbound (name stencil : String)
  | scalarTypeDiffers (name : String) (declared : ElementType) (given : Literal)
  | planeNotComputed (field : String) (plane : Int)
  | readOutside (field : String) (point : Offset) (shape : PerAxis Nat)
  | writeOutside (field : String) (index : Offset) (shape : PerAxis Nat)
  | writtenReadOnly (field : String)
  -- the command line
  | unreadableFile (path reason : String)
  | notUtf8 (fault : Text.Utf8Fault)
  | uncreatableFile (path reason : String)
  | inputOutput (reason : String)
  | formatting
  | noInput
  | noStencils (path : String)

namespace Cause

/-- A list of alternatives in words. -/
def alternatives : List String → String
  | [] => ""
  | [a] => a
  | [a, b] => a ++ " or " ++ b
  | a :: rest => ", ".intercalate (a :: rest.dropLast) ++ ", or " ++ (rest.getLast?.getD "")

/-- A shape in brackets. -/
def shapeText (shape : PerAxis Nat) : String := shape.render toString

/-- A block with its policy, as messages name it. -/
def blockText (policy : Policy) (block : Nat) : String :=
  policy.name ++ " block " ++ toString block

/-- An interval as messages name it. -/
def intervalText (interval : Interval) : String := "interval(" ++ interval.render ++ ")"

/-- The kind of a cause. -/
def kind : Cause → ErrorKind
  | stated kind _ => kind
  | expected _ | unknownElementType _ | integerOutOfRange | unknownFunction _ _
  | argumentCount _ _ | duplicateMarker | fieldBehindMarker | scalarBeforeMarker
  | alreadyBound _ _ | undefined _ _ | unknownParameter _ _ | unknownPolicy _
  | boundNotInteger _ _ | shiftedAssignment _ | assignedScalar _ | assignedExternal _
  | assignedZeroDim _ | shiftedExternal _ | shiftedScalar _ | shiftedZeroDim _
  | readBeforeAssigned _ | assignedInOneBranch _ | readTooFar _ _ => .grammar
  | unresolvedExternal _ => .externalResolution
  | boundsTooFarApart _ _ | emptyInterval _ _ | overlap _ _ _ _ | listedAfter _ _ _ _ => .interval
  | selfRead _ _ _ _ | firstPlaneOutside _ _ _ _ _ | growingRegion _ _ _
  | planeNotComputed _ _ => .ordering
  | extentsMissing _ | undeclaredTarget _ | undeclaredField _ | undeclaredScalar _
  | writtenReadOnly _ => .backendCompilation
  | bufferLength _ _ _ | tooFewPlanes _ _ _ | tooManyFields _ _ _ | noSuchField _ _
  | fieldBoundTwice _ | fieldUnbound _ _ | elementTypeDiffers _ _ _ | outputReadOnly _
  | zeroDimShape _ _ | originTooSmall _ _ _ _ | endOverflows _ _ _ _ | bufferTooSmall _ _ _ _
  | noSuchScalar _ _ | scalarBoundTwice _ | scalarUnbound _ _ | scalarTypeDiffers _ _ _
  | readOutside _ _ _ | writeOutside _ _ _ => .domainMismatch
  | unreadableFile _ _ | notUtf8 _ => .invalidFile
  | uncreatableFile _ _ | inputOutput _ | formatting => .writeError
  | duplicatePass _ | duplicateAlias _ | unknownMember _ | unknownPass _ | unknownBackend _ _
  | noInput | noStencils _ => .misc

open Text (quoted) in
/-- The sentence for a cause, without the heading of its kind. -/
def sentence : Cause → String
  | stated _ text => text
  | expected rules => "expected " ++ alternatives rules
  | unknownElementType word => "Unknown data type " ++ quoted word
  | integerOutOfRange => "Integer literal out of range"
  | unknownFunction name arguments =>
    "Unknown function " ++ quoted name ++
      (if arguments = 1 then " with one argument" else " with two arguments")
  | argumentCount name arguments =>
    "Function " ++ quoted name ++ " called with " ++ toString arguments ++ " arguments"
  | duplicateMarker => "Duplicate " ++ quoted "*" ++ " in signature"
  | fieldBehindMarker => "Fields must be declared before the " ++ quoted "*" ++ " marker"
  | scalarBeforeMarker =>
    "Scalar parameters are keyword-only and must follow " ++ quoted "*"
  | alreadyBound name owner => "Name " ++ quoted name ++ " already bound by " ++ owner
  | undefined sort name => "Undefined " ++ sort ++ " name: " ++ name
  | unknownParameter name stencil =>
    "type signature names " ++ quoted name ++ " which is not a parameter of " ++ quoted stencil
  | unknownPolicy word =>
    "Unknown iteration policy " ++ quoted word ++
      ", expected one of PARALLEL, FORWARD or BACKWARD"
  | boundNotInteger name value =>
    "interval bound " ++ quoted name ++ " must be an integer, found " ++ value.render
  | shiftedAssignment target =>
    "assignment to " ++ quoted target ++ " must be at offset [0, 0, 0]"
  | assignedScalar name => "cannot assign to scalar parameter " ++ quoted name
  | assignedExternal name => "cannot assign to external " ++ quoted name
  | assignedZeroDim name => "cannot assign to 0-D field " ++ quoted name
  | shiftedExternal name => "external " ++ quoted name ++ " cannot be accessed with an offset"
  | shiftedScalar name =>
    "scalar parameter " ++ quoted name ++ " cannot be accessed with an offset"
  | shiftedZeroDim name => "0-D field " ++ quoted name ++ " cannot be accessed with an offset"
  | readBeforeAssigned name => "temporary " ++ quoted name ++ " is read before it is assigned"
  | assignedInOneBranch name =>
    "temporary " ++ quoted name ++ " is first assigned in only one branch of " ++ quoted "if"
  | unresolvedExternal name => quoted name ++ " has no value"
  | readTooFar field offset =>
    quoted field ++ " is read at " ++ offset.render ++ ", too far from the domain"
  | boundsTooFarApart lower upper =>
    "bounds " ++ lower.render ++ " and " ++ upper.render ++ " are too far apart"
  | emptyInterval interval block =>
    intervalText interval ++ " of block " ++ toString block ++ " is empty"
  | overlap upper lower policy block =>
    intervalText upper ++ " overlaps " ++ intervalText lower ++ " in " ++ blockText policy block
  | listedAfter next previous policy block =>
    intervalText next ++ " is listed after " ++ intervalText previous ++ " but " ++
      blockText policy block ++ " visits planes " ++
      (if policy = .forward then "upwards" else "downwards")
  | selfRead target offset policy block =>
    quoted target ++ " reads itself at " ++ offset.render ++ " in " ++ blockText policy block
  | firstPlaneOutside field dk interval policy block =>
    quoted field ++ " is read at vertical offset " ++ toString dk ++ " on the first plane of " ++
      intervalText interval ++ " in " ++ blockText policy block ++
      ", which lies outside the domain"
  | growingRegion fields policy block =>
    "the region needed of `" ++ "', `".intercalate fields ++
      "' grows with every plane visited by " ++ blockText policy block
  | duplicatePass name => "Pass with name '" ++ name ++ "' is already registered."
  | duplicateAlias name => "Alias with name '" ++ name ++ "'  already registered."
  | unknownMember name => "No pass or alias named: " ++ name
  | unknownPass name =>
    "Unknown pass: " ++ name ++ ". Run with --list-passes to view registered passes."
  | extentsMissing stencil => "extents of " ++ quoted stencil ++ " were never computed"
  | undeclaredTarget name => quoted name ++ " is assigned but not declared"
  | undeclaredField name => "read of undeclared field " ++ quoted name
  | undeclaredScalar name => "read of undeclared scalar " ++ quoted name
  | unknownBackend word known =>
    quoted word ++ " is not a valid backend.\nValid backends: " ++ ", ".intercalate known
  | bufferLength shape needed given =>
    "a buffer of shape " ++ shapeText shape ++ " needs " ++ toString needed ++
      " elements, got " ++ toString given
  | tooFewPlanes stencil needed given =>
    quoted stencil ++ " needs at least " ++ toString needed ++
      " vertical levels, the domain has " ++ toString given
  | tooManyFields stencil takes given =>
    quoted stencil ++ " takes " ++ toString takes ++ " fields but " ++ toString given ++
      " were passed by position"
  | noSuchField stencil name => quoted stencil ++ " has no field named " ++ quoted name
  | fieldBoundTwice name => "field " ++ quoted name ++ " is bound more than once"
  | fieldUnbound name stencil =>
    "field " ++ quoted name ++ " of " ++ quoted stencil ++ " is not bound"
  | elementTypeDiffers name declared given =>
    "field " ++ quoted name ++ " is declared " ++ declared.name ++ " but the buffer holds " ++
      given.name
  | outputReadOnly name => "output field " ++ quoted name ++ " was passed read-only"
  | zeroDimShape name shape =>
    "0-D field " ++ quoted name ++ " needs a buffer of shape [1, 1, 1], got " ++ shapeText shape
  | originTooSmall name needed axis given =>
    "field " ++ quoted name ++ " needs " ++ toString needed ++
      " points before the origin along " ++ axis.label ++ " but its origin is at " ++
      toString given
  | endOverflows name origin domain axis =>
    "field " ++ quoted name ++ " with origin " ++ toString origin ++ " and domain " ++
      toString domain ++ " does not fit along " ++ axis.label
  | bufferTooSmall name needed axis given =>
    "field " ++ quoted name ++ " needs " ++ toString needed ++ " points along " ++ axis.label ++
      " but its buffer has " ++ toString given
  | noSuchScalar stencil name =>
    quoted stencil ++ " has no scalar parameter named " ++ quoted name
  | scalarBoundTwice name => "scalar " ++ quoted name ++ " is bound more than once"
  | scalarUnbound name stencil =>
    "scalar " ++ quoted name ++ " of " ++ quoted stencil ++ " is not bound"
  | scalarTypeDiffers name declared given =>
    "scalar " ++ quoted name ++ " is declared " ++ declared.name ++ " but got " ++ given.render
  | planeNotComputed field plane =>
    quoted field ++ " is read at plane " ++ toString plane ++ " before any statement computes it"
  | readOutside field point shape =>
    "access to " ++ quoted field ++ " at " ++ point.render ++
      " lies outside its buffer of shape " ++ shapeText shape
  | writeOutside field index shape =>
    "write to " ++ quoted field ++ " at " ++ index.render ++
      " lies outside its buffer of shape " ++ shapeText shape
  | writtenReadOnly field =>
    "field " ++ quoted field ++ " is written but was bound read-only"
  | unreadableFile path reason => "Failed to read " ++ path ++ ": " ++ reason
  | notUtf8 fault => fault.message
  | uncreatableFile path reason => "cannot create " ++ path ++ ": " ++ reason
  | inputOutput reason => "IO Error: " ++ reason
  | formatting => "an error occurred when formatting an argument"
  | noInput => "No input file given. Run with --help for usage."
  | noStencils path => path ++ " defines no stencils"

/-- The sentence for a cause under the heading of its kind. -/
def message (cause : Cause) : String := cause.kind.heading ++ cause.sentence

/-- The remark that is printed below the message of a cause. -/
def remark : Cause → Option String
  | selfRead _ _ .parallel _ => some "planes of a PARALLEL block run in no particular order"
  | selfRead _ _ .forward _ =>
    some "FORWARD blocks have not computed planes above the current one"
  | selfRead _ _ .backward _ =>
    some "BACKWARD blocks have not computed planes below the current one"
  | _ => none

end Cause

/-- A cause, the place where it shows and a remark. -/
structure Error where
  cause : Cause
  place : Option Place
  remark : Option String

namespace Error

/-- An error that belongs to no place. -/
def ofCause (cause : Cause) : Error := ⟨cause, none, cause.remark⟩

/-- The kind of an error. -/
def kind (error : Error) : ErrorKind := error.cause.kind

/-- The message of an error without its place. -/
def message (error : Error) : String := error.cause.message

/-- The message with an excerpt of the source, and the remark below. -/
def render (error : Error) : String :=
  let body := match error.place with
    | none => error.message
    | some place => place.excerpt error.message
  match error.remark with
  | none => body
  | some remark => body ++ "\n" ++ remark

end Error

/-- A cause that shows at a span of a source which is known from elsewhere. -/
structure Fault where
  span : Span
  cause : Cause

/-- The error for a fault of a source. -/
def Fault.within (fault : Fault) (source : Source) : Error :=
  ⟨fault.cause, some ⟨source, fault.span⟩, fault.cause.remark⟩

end GridStencil
