import ClassForge.Proxy.Spec

namespace ClassForge.ProxySpec

def storeParam (s : ProxySpec) (field : String) (type : FieldType) (position : Nat) : Listing :=
  [.loadThis, .loadParam position, .field .put s.name field type]

def storeHandler (s : ProxySpec) : Listing :=
  match s.handler with
  | some c => s.storeParam c.field c.type 0
  | none => []

def storeCapture (s : ProxySpec) (name : String) (position : Nat) : Listing :=
  match s.captureType? name with
  | some t => s.storeParam name t position
  | none => [.refuse (s.unknownCapture name)]

def storeCaptures (s : ProxySpec) (position : Nat) : List String → Listing
  | [] => []
  | name :: rest => s.storeCapture name position ++ s.storeCaptures (position + 1) rest

def forwardingBody (s : ProxySpec) (superParams : List FieldType) (captures : List String) :
    Listing :=
  [.loadThis] ++ (List.range superParams.length).map (fun i => .loadParam (s.handlerParams + i)) ++
    [.invoke .special s.superName constructorName (constructorDescriptor superParams)] ++
    s.storeHandler ++ s.storeCaptures (s.handlerParams + superParams.length) captures ++ [.leave]

def pushArgument (s : ProxySpec) (params : List FieldType) (argument : Argument)
    (target : FieldType) : Step :=
  let refused : Step := .refuse (.argumentType argument target)
  match argument with
  | .parameter i =>
    match params[i]? with
    | some source => if assignable source target then .loadParam (s.handlerParams + i) else refused
    | none => refused
  | .literal v => if literalFits v target then .push v else refused
  | .null => if target.isReference then .pushNull else refused

def delegatingBody (s : ProxySpec) (params target : List FieldType) (arguments : List Argument) :
    Listing :=
  if arguments.length ≠ target.length then
    [.refuse (.argumentCount arguments.length target.length)]
  else
    [.loadThis] ++ (if s.handler.isSome then [.loadParam 0] else []) ++
      (arguments.zip target).map (fun (a, t) => s.pushArgument params a t) ++
      [.invoke .special s.name constructorName (constructorDescriptor (s.declaredParams target)),
        .leave]

def constructorBody (s : ProxySpec) (c : ConstructorSpec) : Listing :=
  match c.kind with
  | .forwarding superParams captures => s.forwardingBody superParams captures
  | .delegating params target arguments => s.delegatingBody params target arguments

def objectType : FieldType := .object objectClass

def passArgument (position : Nat) (type : FieldType) : Listing :=
  [.dup, .push (.int (Int32.ofNat position)), .loadParam position, .box type,
    .arrayStore objectType]

def passArguments (position : Nat) : List FieldType → Listing
  | [] => []
  | type :: rest => passArgument position type ++ passArguments (position + 1) rest

def handlerBody (s : ProxySpec) (c : HandlerContract) (name : String) (d : MethodDescriptor) :
    Listing :=
  [.loadThis, .field .get s.name c.field c.type, .loadThis, .push (.string (name ++ d.descriptor)),
    .push (.int (Int32.ofNat d.params.length)), .newArray objectType] ++
    passArguments 0 d.params ++
    [.invokeInterface c.interface c.method HandlerContract.descriptor,
      match d.returns with
      | some t => .unbox t
      | none => .pop,
      .leave]

def returningBody (s : ProxySpec) (field : String) (type : FieldType) (d : MethodDescriptor) :
    Listing :=
  if d.returns.any (assignable type ·) then
    [.loadThis, .field .get s.name field type, .leave]
  else [.refuse (.fieldReturned field type d)]

end ClassForge.ProxySpec
