import Muti.Cluster

/-! The blocks in which the client's decoders put a response with a map. The one for a status is as large
as its struct; the one for the latest map is as large as a header, and the map's pointer is stored behind it. -/
namespace Muti.ResponseBlock

open Muti.Bytes Muti.Memory Muti.Resource Muti.ClusterMap Muti.Cluster

/-- A header and a map, whose pointer is stored at `offset` of the `size` bytes allocated. -/
def decodeMap (size offset header_len : Nat) (reply : List UInt8 → ObjectServiceMap → Reply) (buffer : List UInt8) :
    Except Fault (Decoded Reply) :=
  if buffer.length < header_len then .ok .more
  else do
    match ← clusterMapParseObjectServiceMap clearedMap (buffer.drop header_len) with
    | .rejected _ => .ok .more
    | .accepted os_map len1 =>
      if size < offset + 8 then .error .outOfBounds
      else .ok (.message (reply buffer os_map) (UInt64.ofNat header_len + UInt64.ofNat len1))

/-- `malloc(sizeof(*resp))`, where `resp` is the header. -/
def clusterResponseDecoderGetLatestObjectServiceMap : Decoder Reply :=
  errorOr (decodeMap 8 8 8 fun buffer os_map => .latestMap (responseAt buffer) os_map)

/-- `malloc(sizeof(*resp1))`. -/
def clusterResponseDecoderStatus : Decoder Reply :=
  errorOr (decodeMap 40 32 32 fun buffer os_map => .status (responseAt buffer) (field32 8 buffer).toUInt64
    (field32 16 buffer).toUInt64 (field32 24 buffer).toUInt64 os_map)

def clusterResponseDecoder : List (Decoder Reply) :=
  [clusterResponseDecoderGetObjectServiceMapLatestVersion,clusterResponseDecoderGetLatestObjectServiceMap,
    clusterResponseDecoderAddObjectService,clusterResponseDecoderRemoveObjectService,
    clusterResponseDecoderKeepAliveObjectService,clusterResponseDecoderKeepAliveClient,
    clusterResponseDecoderGetObjectServiceMapChangeLog,clusterResponseDecoderStatus,clusterResponseDecoderStop]

variable {size offset header_len : Nat} {reply : List UInt8 → ObjectServiceMap → Reply} {buffer : List UInt8}

/-- In a block that has room for the pointer nothing is different. -/
theorem decodeMap_room (room : offset + 8 ≤ size) :
    decodeMap size offset header_len reply = Cluster.decodeMap header_len reply := by
  funext buffer
  rw [decodeMap,Cluster.decodeMap]
  split
  · rfl
  · rcases clusterMapParseObjectServiceMap clearedMap (buffer.drop header_len) with reason | _ | _
    · rfl
    · exact if_neg (Nat.not_lt.mpr room)
    · rfl

theorem status_same : clusterResponseDecoderStatus = Cluster.clusterResponseDecoderStatus := by
  rw [clusterResponseDecoderStatus,decodeMap_room (by decide),Cluster.clusterResponseDecoderStatus]

/-- A map that is accepted faults in any other block. -/
theorem decodeMap_beyond (small : size < offset + 8)
    (accepted : Cluster.decodeMap header_len reply buffer = .ok (.message a consume_len)) :
    decodeMap size offset header_len reply buffer = .error .outOfBounds := by
  by_cases early : buffer.length < header_len
  · simp only [Cluster.decodeMap,if_pos early] at accepted
    cases accepted
  simp only [Cluster.decodeMap,if_neg early] at accepted
  obtain ⟨parsed,run,ended⟩ := bind_ok.mp accepted
  cases parsed with
  | rejected m => cases ended
  | accepted m len =>
    simp only [decodeMap,if_neg early,if_pos small,run]
    rfl

/-- What is handed out is what would be without the block. -/
theorem decodeMap_message (done : decodeMap size offset header_len reply buffer = .ok (.message a consume_len)) :
    Cluster.decodeMap header_len reply buffer = .ok (.message a consume_len) := by
  by_cases early : buffer.length < header_len
  · simp only [decodeMap,if_pos early] at done
    cases done
  simp only [decodeMap,if_neg early] at done
  obtain ⟨parsed,run,ended⟩ := bind_ok.mp done
  cases parsed with
  | rejected m => cases ended
  | accepted m len =>
    simp only [Cluster.decodeMap,if_neg early,run]
    by_cases small : size < offset + 8
    · simp only [if_pos small] at ended
      cases ended
    · simp only [if_neg small] at ended
      exact ended

end Muti.ResponseBlock
