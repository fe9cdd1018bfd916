import Muti.Resource

/-! The cluster resource of services/mon: its requests and responses, the encoders of each
side and the decoders of the other. Adding and removing object services and the change
log are left to do in the source: their decoders always ask for more. -/
namespace Muti

/-- A request that holds its header only. -/
structure ClusterPlainRequest where
  super : Request
  deriving DecidableEq, Repr

structure ClusterKeepAliveObjectServiceRequest where
  super : Request
  version : UInt32
  os_id : UInt32
  status : UInt32
  deriving DecidableEq, Repr

/-- The responses to the latest version request and to a client's keep-alive. -/
structure ClusterVersionResponse where
  super : Response
  version : UInt32
  deriving DecidableEq, Repr

structure ClusterGetLatestObjectServiceMapResponse where
  super : Response
  os_map : ObjectServiceMap
  deriving DecidableEq

structure ClusterKeepAliveObjectServiceResponse where
  super : Response
  version : UInt32
  status : UInt32
  deriving DecidableEq, Repr

structure ClusterStatusResponse where
  super : Response
  total_objects : UInt64
  used : UInt64
  free : UInt64
  os_map : ObjectServiceMap
  deriving DecidableEq

structure ClusterStopResponse where
  super : Response
  deriving DecidableEq, Repr

namespace Cluster

open Muti.Bytes Muti.Memory Muti.Resource Muti.ClusterMap

/-- The macro `SENDER_REQUEST_ENCODER` on a type without fields of its own. -/
def plainRequestEncoder (req : ClusterPlainRequest) : Except Fault (List UInt8) :=
  .ok (requestImage req.super)

def clusterRequestEncoderGetObjectServiceMapLatestVersion := plainRequestEncoder

def clusterRequestEncoderGetLatestObjectServiceMap := plainRequestEncoder

def clusterRequestEncoderKeepAliveObjectService (req : ClusterKeepAliveObjectServiceRequest) :
    Except Fault (List UInt8) :=
  .ok (requestImage req.super ++ (image32 req.version ++ (image32 req.os_id ++ image32 req.status)))

def clusterRequestEncoderKeepAliveClient := plainRequestEncoder

def clusterRequestEncoderStatus := plainRequestEncoder

def clusterRequestEncoderStop := plainRequestEncoder

def receive (bytes : List UInt8) : ReceivedRequest := ⟨bytes,none⟩

def clusterRequestDecoderGetObjectServiceMapLatestVersion : Decoder ReceivedRequest := fixedDecoder 8 receive

def clusterRequestDecoderGetLatestObjectServiceMap : Decoder ReceivedRequest := fixedDecoder 8 receive

def clusterRequestDecoderAddObjectService : Decoder ReceivedRequest := todoDecoder

def clusterRequestDecoderRemoveObjectService : Decoder ReceivedRequest := todoDecoder

def clusterRequestDecoderKeepAliveObjectService : Decoder ReceivedRequest := fixedDecoder 20 receive

def clusterRequestDecoderKeepAliveClient : Decoder ReceivedRequest := fixedDecoder 8 receive

def clusterRequestDecoderGetObjectServiceMapChangeLog : Decoder ReceivedRequest := todoDecoder

def clusterRequestDecoderStatus : Decoder ReceivedRequest := fixedDecoder 8 receive

def clusterRequestDecoderStop : Decoder ReceivedRequest := fixedDecoder 8 receive

def clusterRequestDecoder : List (Decoder ReceivedRequest) :=
  [clusterRequestDecoderGetObjectServiceMapLatestVersion,clusterRequestDecoderGetLatestObjectServiceMap,
    clusterRequestDecoderAddObjectService,clusterRequestDecoderRemoveObjectService,
    clusterRequestDecoderKeepAliveObjectService,clusterRequestDecoderKeepAliveClient,
    clusterRequestDecoderGetObjectServiceMapChangeLog,clusterRequestDecoderStatus,clusterRequestDecoderStop]

def clusterResponseEncoderGetObjectServiceMapLatestVersion (resp : ClusterVersionResponse) :
    Except Fault (List UInt8) :=
  .ok (responseImage resp.super ++ image32 resp.version)

def clusterResponseEncoderGetLatestObjectServiceMap (resp : ClusterGetLatestObjectServiceMapResponse) :
    Except Fault (List UInt8) := do
  let os_map_buffer ← clusterMapDumpObjectServiceMap resp.os_map (clusterMapDumpObjectServiceMapLength resp.os_map)
  .ok (responseImage resp.super ++ os_map_buffer)

def clusterResponseEncoderKeepAliveObjectService (resp : ClusterKeepAliveObjectServiceResponse) :
    Except Fault (List UInt8) :=
  .ok (responseImage resp.super ++ (image32 resp.version ++ image32 resp.status))

def clusterResponseEncoderKeepAliveClient (resp : ClusterVersionResponse) : Except Fault (List UInt8) :=
  .ok (responseImage resp.super ++ image32 resp.version)

def statusHeader (resp : ClusterStatusResponse) : List UInt8 :=
  responseImage resp.super ++ (image64 resp.total_objects ++ (image64 resp.used ++ image64 resp.free))

def clusterResponseEncoderStatus (resp : ClusterStatusResponse) : Except Fault (List UInt8) := do
  let os_map_buffer ← clusterMapDumpObjectServiceMap resp.os_map (clusterMapDumpObjectServiceMapLength resp.os_map)
  .ok (statusHeader resp ++ os_map_buffer)

def clusterResponseEncoderStop (resp : ClusterStopResponse) : Except Fault (List UInt8) :=
  .ok (responseImage resp.super)

/-- `calloc(1, sizeof(*os_map))`. -/
def clearedMap : ObjectServiceMap where
  version := 0
  status := .normal
  object_service_length := 0
  object_service_list := []
  os_map := none
  bset_length := 0
  bset := .null
  bset_replica_size := 0
  reference := 0

/-- A header of `header_len` bytes followed by a cluster map. The block for the response is left to `ResponseBlock`. -/
def decodeMap (header_len : Nat) (reply : List UInt8 → ObjectServiceMap → Reply) (buffer : List UInt8) :
    Except Fault (Decoded Reply) :=
  if buffer.length < header_len then .ok .more
  else do
    match ← clusterMapParseObjectServiceMap clearedMap (buffer.drop header_len) with
    | .rejected _ => .ok .more
    | .accepted os_map len1 =>
      .ok (.message (reply buffer os_map) (UInt64.ofNat header_len + UInt64.ofNat len1))

def clusterResponseDecoderGetObjectServiceMapLatestVersion : Decoder Reply := senderResponseDecoder 12

def clusterResponseDecoderGetLatestObjectServiceMap : Decoder Reply :=
  errorOr (decodeMap 8 fun buffer os_map => .latestMap (responseAt buffer) os_map)

def clusterResponseDecoderAddObjectService : Decoder Reply := todoDecoder

def clusterResponseDecoderRemoveObjectService : Decoder Reply := todoDecoder

def clusterResponseDecoderKeepAliveObjectService : Decoder Reply := senderResponseDecoder 16

def clusterResponseDecoderKeepAliveClient : Decoder Reply := senderResponseDecoder 12

def clusterResponseDecoderGetObjectServiceMapChangeLog : Decoder Reply := todoDecoder

/-- The three 64-bit counters are read through 32-bit pointers. -/
def clusterResponseDecoderStatus : Decoder Reply :=
  errorOr (decodeMap 32 fun buffer os_map => .status (responseAt buffer) (field32 8 buffer).toUInt64
    (field32 16 buffer).toUInt64 (field32 24 buffer).toUInt64 os_map)

def clusterResponseDecoderStop : Decoder Reply := senderResponseDecoder 8

def clusterResponseDecoder : List (Decoder Reply) :=
  [clusterResponseDecoderGetObjectServiceMapLatestVersion,clusterResponseDecoderGetLatestObjectServiceMap,
    clusterResponseDecoderAddObjectService,clusterResponseDecoderRemoveObjectService,
    clusterResponseDecoderKeepAliveObjectService,clusterResponseDecoderKeepAliveClient,
    clusterResponseDecoderGetObjectServiceMapChangeLog,clusterResponseDecoderStatus,clusterResponseDecoderStop]

inductive ClusterRequest where
  | getObjectServiceMapLatestVersion (req : ClusterPlainRequest)
  | getLatestObjectServiceMap (req : ClusterPlainRequest)
  | keepAliveObjectService (req : ClusterKeepAliveObjectServiceRequest)
  | keepAliveClient (req : ClusterPlainRequest)
  | status (req : ClusterPlainRequest)
  | stop (req : ClusterPlainRequest)

def ClusterRequest.super : ClusterRequest → Request
  | .getObjectServiceMapLatestVersion req => req.super
  | .getLatestObjectServiceMap req => req.super
  | .keepAliveObjectService req => req.super
  | .keepAliveClient req => req.super
  | .status req => req.super
  | .stop req => req.super

def ClusterRequest.id : ClusterRequest → Nat
  | .getObjectServiceMapLatestVersion _ => 0
  | .getLatestObjectServiceMap _ => 1
  | .keepAliveObjectService _ => 4
  | .keepAliveClient _ => 5
  | .status _ => 7
  | .stop _ => 8

def clusterRequestEncoder : ClusterRequest → Except Fault (List UInt8)
  | .getObjectServiceMapLatestVersion req => clusterRequestEncoderGetObjectServiceMapLatestVersion req
  | .getLatestObjectServiceMap req => clusterRequestEncoderGetLatestObjectServiceMap req
  | .keepAliveObjectService req => clusterRequestEncoderKeepAliveObjectService req
  | .keepAliveClient req => clusterRequestEncoderKeepAliveClient req
  | .status req => clusterRequestEncoderStatus req
  | .stop req => clusterRequestEncoderStop req

inductive ClusterResponse where
  | getObjectServiceMapLatestVersion (resp : ClusterVersionResponse)
  | getLatestObjectServiceMap (resp : ClusterGetLatestObjectServiceMapResponse)
  | keepAliveObjectService (resp : ClusterKeepAliveObjectServiceResponse)
  | keepAliveClient (resp : ClusterVersionResponse)
  | status (resp : ClusterStatusResponse)
  | stop (resp : ClusterStopResponse)

def ClusterResponse.super : ClusterResponse → Response
  | .getObjectServiceMapLatestVersion resp => resp.super
  | .getLatestObjectServiceMap resp => resp.super
  | .keepAliveObjectService resp => resp.super
  | .keepAliveClient resp => resp.super
  | .status resp => resp.super
  | .stop resp => resp.super

def ClusterResponse.id : ClusterResponse → Nat
  | .getObjectServiceMapLatestVersion _ => 0
  | .getLatestObjectServiceMap _ => 1
  | .keepAliveObjectService _ => 4
  | .keepAliveClient _ => 5
  | .status _ => 7
  | .stop _ => 8

def clusterResponseEncoder : ClusterResponse → Except Fault (List UInt8)
  | .getObjectServiceMapLatestVersion resp => clusterResponseEncoderGetObjectServiceMapLatestVersion resp
  | .getLatestObjectServiceMap resp => clusterResponseEncoderGetLatestObjectServiceMap resp
  | .keepAliveObjectService resp => clusterResponseEncoderKeepAliveObjectService resp
  | .keepAliveClient resp => clusterResponseEncoderKeepAliveClient resp
  | .status resp => clusterResponseEncoderStatus resp
  | .stop resp => clusterResponseEncoderStop resp

end Cluster
end Muti
