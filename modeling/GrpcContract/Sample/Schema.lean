import GrpcContract.Schema.Declare

/-!
A sample schema: one service with a method of each shape, messages of every kind of field, and a
message type that refers to itself.
-/

namespace GrpcContract.Sample

def color : EnumType :=
  ⟨"example.Color", [("COLOR_UNSPECIFIED", 0), ("RED", 1), ("GREEN", 2)]⟩

def oneValue (name : String) : MessageType :=
  ⟨name, [.declare "value" 1 (.one (.scalar .int64))]⟩

def manyValues (name : String) : MessageType :=
  ⟨name, [.declare "value" 1 (.many (.scalar .int64))]⟩

def nested : MessageType :=
  ⟨"example.Nested", [
    .declare "id" 1 (.one (.scalar .int32)),
    .declare "label" 2 (.one (.scalar .string)),
    .declare "scores" 3 (.map .string (.scalar .int32))]⟩

def everything : MessageType :=
  ⟨"example.Everything", [
    .declare "name" 1 (.one (.scalar .string)),
    .declare "flag" 2 (.one (.scalar .bool)),
    .declare "ratio" 3 (.one (.scalar .double)),
    .declare "payload" 4 (.one (.scalar .bytes)),
    .declare "color" 5 (.one (.enum color)),
    .declare "nested" 6 (.one (.message "example.Nested")),
    .declare "items" 7 (.many (.message "example.Nested")),
    .declare "counts" 8 (.map .string (.scalar .int32)),
    .declare "children" 9 (.map .string (.message "example.Nested")),
    .declare "tags" 10 (.many (.scalar .string)),
    .declare "big" 11 (.one (.scalar .uint64)),
    .declare "text" 12 (.member "choice" (.scalar .string)),
    .declare "number" 13 (.member "choice" (.scalar .int32))]⟩

def node : MessageType :=
  ⟨"example.Node", [
    .declare "v" 1 (.one (.scalar .int32)),
    .declare "child" 2 (.one (.message "example.Node")),
    .declare "children" 3 (.many (.message "example.Node"))]⟩

def serviceName : String := "example.ExampleService"

def service : Service :=
  .declare serviceName [
    ("UnaryMethod", false, "example.UnaryRequest", false, "example.UnaryResponse"),
    ("ClientStreamingMethod", true, "example.ClientStreamingRequest",
      false, "example.ClientStreamingResponse"),
    ("ServerStreamingMethod", false, "example.ServerStreamingRequest",
      true, "example.ServerStreamingResponse"),
    ("BidiStreamingMethod", true, "example.BidiStreamingRequest",
      true, "example.BidiStreamingResponse")]

def unaryMethod : Method where
  service := serviceName
  name := "UnaryMethod"
  input := "example.UnaryRequest"
  output := "example.UnaryResponse"
  clientStreaming := false
  serverStreaming := false

def clientStreamingMethod : Method where
  service := serviceName
  name := "ClientStreamingMethod"
  input := "example.ClientStreamingRequest"
  output := "example.ClientStreamingResponse"
  clientStreaming := true
  serverStreaming := false

def serverStreamingMethod : Method where
  service := serviceName
  name := "ServerStreamingMethod"
  input := "example.ServerStreamingRequest"
  output := "example.ServerStreamingResponse"
  clientStreaming := false
  serverStreaming := true

def bidiStreamingMethod : Method where
  service := serviceName
  name := "BidiStreamingMethod"
  input := "example.BidiStreamingRequest"
  output := "example.BidiStreamingResponse"
  clientStreaming := true
  serverStreaming := true

def pathOf (method : String) : String := "/" ++ serviceName ++ "/" ++ method

def unaryPath : String := pathOf "UnaryMethod"
def clientStreamingPath : String := pathOf "ClientStreamingMethod"
def serverStreamingPath : String := pathOf "ServerStreamingMethod"
def bidiStreamingPath : String := pathOf "BidiStreamingMethod"

def schema : Schema :=
  { messages := [
      oneValue "example.UnaryRequest", oneValue "example.UnaryResponse",
      oneValue "example.ClientStreamingRequest", manyValues "example.ClientStreamingResponse",
      manyValues "example.ServerStreamingRequest", oneValue "example.ServerStreamingResponse",
      oneValue "example.BidiStreamingRequest", oneValue "example.BidiStreamingResponse",
      nested, everything, node]
    services := [service] }

end GrpcContract.Sample
