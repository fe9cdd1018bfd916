import Muti.Cluster
import Muti.ClusterMapCodec
import Muti.Object

/-! Each decoder of the two resources frames what the encoder of the other side emits. -/
namespace Muti.Agreement

open Muti.Bytes Muti.Memory Muti.Resource Muti.Object Muti.Cluster Muti.ClusterMap

/-- The block of an object holds its path, and the object's size is a `size_t`. -/
def HoldsPath (s : Object) : Prop := s.path_length.toNat ≤ s.data.length ∧ 48 + s.path_length.toNat < 2 ^ 64

/-- Requests as clients build them: addressed to the resource, with the id of their type. -/
structure SentObjectRequest (req : ObjectRequest) : Prop where
  resource : req.super.resource_id = 0
  request : req.super.request_id = UInt16.ofNat req.id
  object : ∀ put, req = .put put → HoldsPath put.object

structure SentClusterRequest (req : ClusterRequest) : Prop where
  resource : req.super.resource_id = 0
  request : req.super.request_id = UInt16.ofNat req.id

def objectFits : ObjectResponse → Prop
  | .get resp => HoldsPath resp.object
  | .list resp => resp.object_list.length = resp.length.toNat ∧ resp.length.toNat < 2 ^ 31 ∧
      (∀ s ∈ resp.object_list, s.path_length.toNat ≤ s.data.length) ∧
      (resp.object_list.map fun s => 40 + s.path_length.toNat).sum ≤ resp.length.toNat * (40 + 1024)
  | _ => True

def clusterFits : ClusterResponse → Prop
  | .getLatestObjectServiceMap resp => ClusterMap.Encodable resp.os_map
  | .status resp => ClusterMap.Encodable resp.os_map
  | _ => True

@[simp] theorem headerImage_length (s : Object) : (headerImage s).length = 40 := by
  simp [headerImage]

theorem objectImage_ok (room : s.path_length.toNat ≤ s.data.length) :
    objectImage s = .ok (headerImage s ++ s.data.take s.path_length.toNat) := by
  rw [objectImage,readFirst,if_pos room]
  rfl

/-- The path length lies behind the 16 bytes of list element. -/
theorem field_path_length (front : List UInt8) (s : Object) (back : List UInt8) :
    field64 (front.length + 16) (front ++ (headerImage s ++ back)) = s.path_length := by
  rw [field64,field_skip _ _ _ _ (by omega),headerImage]
  simp only [List.append_assoc]
  rw [field_skip _ _ _ _ (by simp),field_skip _ _ _ _ (by simp)]
  have back_word := field64_image64 s.path_length (image64 s.path ++ (image64 s.size ++ back))
  simpa [field64] using back_word

/-- A header of eight bytes, an object, and its path. -/
theorem frames_object (value : List UInt8 → α) (front : List UInt8) (count : front.length = 8)
    (holds : HoldsPath s) :
    ∃ object, objectImage s = .ok object ∧
      Frames (pathDecoder 48 24 value) (front ++ object) (value (front ++ object)) := by
  refine ⟨_,objectImage_ok holds.1,?_⟩
  have path : (s.data.take s.path_length.toNat).length = s.path_length.toNat := by
    rw [List.length_take,Nat.min_eq_left holds.1]
  have word := field_path_length front s []
  rw [count,List.append_nil] at word
  rw [← List.append_assoc]
  refine frames_path value (front ++ headerImage s) _ ?_ ?_ ?_ ?_
  · simp [count]
  · simp [count]
  · rw [word,path]
  · simp only [List.length_append,count,headerImage_length,path]
    have fits := holds.2
    omega

theorem object_request_framed (req : ObjectRequest) (sent : SentObjectRequest req) :
    ∃ bytes path decoder, objectRequestEncoder req = .ok bytes ∧
      objectRequestDecoder[req.id]? = some decoder ∧ Frames decoder bytes ⟨bytes,path⟩ ∧
      ∃ back, bytes = requestImage req.super ++ back := by
  cases req with
  | get req => exact ⟨_,_,_,rfl,rfl,frames_fixed _ (by simp),_,rfl⟩
  | put req =>
    obtain ⟨object,image,frames⟩ := frames_object (receive (some 48)) (requestImage req.super) (by simp)
      (sent.object req rfl)
    exact ⟨_,_,_,bind_ok.mpr ⟨object,image,rfl⟩,rfl,frames,object,rfl⟩
  | list req => exact ⟨_,_,_,rfl,rfl,frames_fixed _ (by simp),_,rfl⟩
  | delete req => exact ⟨_,_,_,rfl,rfl,frames_fixed _ (by simp),_,rfl⟩
  | stop req => exact ⟨_,_,_,rfl,rfl,frames_fixed _ (by simp),[],by simp [ObjectRequest.super]⟩

theorem cluster_request_framed (req : ClusterRequest) :
    ∃ bytes decoder, clusterRequestEncoder req = .ok bytes ∧
      clusterRequestDecoder[req.id]? = some decoder ∧ Frames decoder bytes ⟨bytes,none⟩ ∧
      ∃ back, bytes = requestImage req.super ++ back := by
  cases req with
  | keepAliveObjectService req => exact ⟨_,_,rfl,rfl,frames_fixed _ (by simp),_,rfl⟩
  | _ req => exact ⟨_,_,rfl,rfl,frames_fixed _ (by simp),[],by simp [ClusterRequest.super]⟩

def received (s : Object) : Object := { s with data := s.data.take s.path_length.toNat }

def sentImage (s : Object) : List UInt8 := headerImage s ++ s.data.take s.path_length.toNat

theorem sentImage_length (room : s.path_length.toNat ≤ s.data.length) :
    (sentImage s).length = 40 + s.path_length.toNat := by
  rw [sentImage,List.length_append,headerImage_length,List.length_take,Nat.min_eq_left room]

theorem field_word (front : List UInt8) (offset : Nat) (here : offset = front.length) (x : UInt64)
    (back : List UInt8) : field64 offset (front ++ (image64 x ++ back)) = x := by
  subst here
  rw [field64,field_skip _ _ _ _ (Nat.le_refl _),Nat.sub_self]
  exact field64_image64 x back

theorem objectAt_sentImage (front : List UInt8) (room : s.path_length.toNat ≤ s.data.length) (back : List UInt8) :
    objectAt front.length (front ++ (sentImage s ++ back)) = received s := by
  have path_length := field_path_length front s (s.data.take s.path_length.toNat ++ back)
  have next := field_word front front.length rfl s.next (image64 s.prev ++ (image64 s.path_length ++
    (image64 s.path ++ (image64 s.size ++ (s.data.take s.path_length.toNat ++ back)))))
  have prev := field_word (front ++ image64 s.next) (front.length + 8) (by simp) s.prev
    (image64 s.path_length ++ (image64 s.path ++ (image64 s.size ++ (s.data.take s.path_length.toNat ++ back))))
  have path := field_word (front ++ (image64 s.next ++ (image64 s.prev ++ image64 s.path_length)))
    (front.length + 24) (by simp) s.path (image64 s.size ++ (s.data.take s.path_length.toNat ++ back))
  have size := field_word (front ++ (image64 s.next ++ (image64 s.prev ++ (image64 s.path_length ++ image64 s.path))))
    (front.length + 32) (by simp) s.size (s.data.take s.path_length.toNat ++ back)
  have data : ((front ++ (sentImage s ++ back)).drop (front.length + 40)).take s.path_length.toNat =
      s.data.take s.path_length.toNat := by
    have split : front ++ (sentImage s ++ back) = (front ++ headerImage s) ++ (s.data.take s.path_length.toNat ++ back) := by
      simp [sentImage]
    rw [split,List.drop_left' (by simp),List.take_left' (by rw [List.length_take,Nat.min_eq_left room])]
  simp only [headerImage,List.append_assoc] at path_length next prev path size
  have header : front ++ (sentImage s ++ back) = front ++ (image64 s.next ++ (image64 s.prev ++ (image64 s.path_length ++
      (image64 s.path ++ (image64 s.size ++ (s.data.take s.path_length.toNat ++ back)))))) := by
    simp [sentImage,headerImage]
  rw [objectAt,received,← data,header,next,prev,path_length,path,size]

theorem written_sentImage (room : s.path_length.toNat ≤ s.data.length) :
    Records.Written objectLayout (sentImage s) (received s) where
  inside := by decide
  header := by
    rw [sentImage_length room]
    exact Nat.le_add_right 40 _
  length := by
    intro front back
    have word := field_path_length front s (s.data.take s.path_length.toNat ++ back)
    rw [← List.append_assoc (headerImage s)] at word
    change (field64 (front.length + 16) (front ++ (sentImage s ++ back))).toNat = _
    rw [sentImage,word,← sentImage,sentImage_length room]
    exact (Nat.add_sub_cancel_left ..).symm
  value := fun front back => objectAt_sentImage front room back

theorem written_objects (objects : List Object) (room : ∀ s ∈ objects, s.path_length.toNat ≤ s.data.length) :
    List.Forall₂ (Records.Written objectLayout) (objects.map sentImage) (objects.map received) := by
  rw [List.forall₂_map_left_iff,List.forall₂_map_right_iff,List.forall₂_same]
  exact fun s member => written_sentImage (room s member)

def listImage (resp : ObjectListResponse) : List UInt8 :=
  (responseImage resp.super ++ image32 resp.length) ++ resp.object_list.flatMap sentImage

theorem sentImages_length (objects : List Object) (room : ∀ s ∈ objects, s.path_length.toNat ≤ s.data.length) :
    (objects.flatMap sentImage).length = (objects.map fun s => 40 + s.path_length.toNat).sum := by
  induction objects with
  | nil => rfl
  | cons s objects ih =>
    have head := sentImage_length (room s List.mem_cons_self)
    have tail := ih fun t member => room t (List.mem_cons_of_mem _ member)
    simp [head,tail]

theorem objectResponseEncoderList_ok (resp : ObjectListResponse) (fits : objectFits (.list resp)) :
    objectResponseEncoderList resp = .ok (listImage resp) := by
  obtain ⟨count,small,room,total⟩ := fits
  have images := Lists.mapM_ok resp.object_list objectImage sentImage fun s member => objectImage_ok (room s member)
  have sizes := sentImages_length resp.object_list room
  have shape : responseImage resp.super ++ (image32 resp.length ++ (resp.object_list.map sentImage).flatten) =
      listImage resp := by
    simp [listImage,List.flatMap_def]
  have length : (listImage resp).length = 12 + (resp.object_list.map fun s => 40 + s.path_length.toNat).sum := by
    simp only [listImage,List.length_append,responseImage_length,image32_length,sizes]
  have counted : ¬2 ^ 31 ≤ resp.length.toNat := by omega
  have allocated : ¬8 + 4 + resp.length.toNat * (40 + 1024) < (listImage resp).length := by omega
  refine bind_ok.mpr ⟨_,readFirst_all count.symm,bind_ok.mpr ⟨_,images,?_⟩⟩
  simp only [shape,if_neg counted,if_neg allocated]

theorem frames_objectList (resp : ObjectListResponse) (fits : objectFits (.list resp)) :
    Frames decodeObjectList (listImage resp)
      (.objectList resp.super resp.length (resp.object_list.map received)) := by
  obtain ⟨count,small,room,total⟩ := fits
  have sizes := sentImages_length resp.object_list room
  let front := responseImage resp.super ++ image32 resp.length
  have twelve : front.length = 12 := by simp [front]
  have written := written_objects resp.object_list room
  have counted : (resp.object_list.map sentImage).length = resp.length.toNat := by rw [List.length_map,count]
  have bound : (front ++ resp.object_list.flatMap sentImage).length < 2 ^ 64 := by
    rw [List.length_append,twelve,sizes]
    omega
  have announced : ∀ back, field32 8 (front ++ back) = resp.length := by
    intro back
    rw [field32,List.append_assoc,field_skip _ _ _ _ (by simp)]
    simpa [field32] using field32_image32 resp.length back
  have header : ∀ back, responseAt (front ++ back) = resp.super := by
    intro back
    rw [List.append_assoc]
    exact responseAt_image resp.super _
  have start : (12 : UInt64) = UInt64.ofNat front.length := by rw [twelve]; rfl
  refine ⟨?_,?_,bound⟩
  · intro back
    have run := Records.loop_whole written front back (i := 0) (by omega) bound
    rw [counted] at run
    have enough : ¬(front ++ (resp.object_list.flatMap sentImage ++ back)).length < 12 := by
      rw [List.length_append]
      omega
    rw [listImage,List.append_assoc]
    change decodeObjectList (front ++ (resp.object_list.flatMap sentImage ++ back)) = _
    rw [decodeObjectList,if_neg enough,announced,header,start]
    exact bind_ok.mpr ⟨_,run,rfl⟩
  · intro p before proper
    by_cases early : p.length < 12
    · rw [decodeObjectList,if_pos early]
    · obtain ⟨rest,rfl,inside⟩ := Lists.prefix_append_covers before (by change front.length ≤ _; omega)
      have other : rest ≠ resp.object_list.flatMap sentImage := by
        rintro rfl
        exact proper rfl
      have run := Records.loop_short written front rest (i := 0) (by omega) bound inside other
      rw [counted] at run
      rw [decodeObjectList,if_neg early,announced,start]
      exact bind_ok.mpr ⟨_,run,rfl⟩

theorem frames_map (front : List UInt8) (value : List UInt8 → ObjectServiceMap → Reply)
    (local_ : ∀ back os_map, value (front ++ back) os_map = value front os_map) (valid : ClusterMap.Encodable m)
    (small : front.length < 2 ^ 32) :
    ∃ reply, Frames (decodeMap front.length value) (front ++ mapImage m) reply := by
  obtain ⟨parsed,_,accepted⟩ := parse_whole valid.carried valid.nonempty clearedMap
  have length := mapImage_length valid.counts
  have bound := valid.small
  refine ⟨value front parsed,?_,?_,by rw [List.length_append]; omega⟩
  · intro back
    have enough : ¬(front ++ mapImage m ++ back).length < front.length := by
      rw [List.append_assoc,List.length_append]
      omega
    have dropped : (front ++ mapImage m ++ back).drop front.length = mapImage m ++ back := by
      rw [List.append_assoc,List.drop_left]
    have sum : UInt64.ofNat front.length + UInt64.ofNat (mapImage m).length =
        UInt64.ofNat (front ++ mapImage m).length := by
      rw [List.length_append,UInt64.ofNat_add]
    rw [decodeMap,if_neg enough,dropped]
    refine bind_ok.mpr ⟨_,accepted back,?_⟩
    simp only [List.append_assoc,local_,sum]
  · intro p before proper
    by_cases early : p.length < front.length
    · rw [decodeMap,if_pos early]
    · obtain ⟨rest,rfl,inside⟩ := Lists.prefix_append_covers before (by omega)
      have other : rest ≠ mapImage m := by
        rintro rfl
        exact proper rfl
      obtain ⟨left,rejected⟩ := parse_short valid.carried valid.nonempty clearedMap inside other
      rw [decodeMap,if_neg early,List.drop_left]
      exact bind_ok.mpr ⟨_,rejected,rfl⟩

/-- The client's choice and the decoder's own check both let a success response through. -/
theorem frames_success {decode : Decoder Reply} (frames : Frames decode (responseImage r ++ back) reply)
    (success : r.error_id = 0) : Frames (decodeResponse (errorOr decode)) (responseImage r ++ back) reply := by
  have room : 8 ≤ (responseImage r ++ back).length := by simp
  have header : (responseAt (responseImage r ++ back)).error_id = 0 := by
    rw [responseAt_image,success]
  rw [decodeResponse_eq]
  exact (frames.errorOr room header).errorOr room header

theorem frames_failure (decoder : Decoder Reply) (failed : r.error_id ≠ 0) :
    Frames (decodeResponse decoder) (responseImage r) (.inPlace (responseImage r)) := by
  rw [decodeResponse_eq]
  exact frames_error decoder failed

theorem frames_sender (r : Response) (back : List UInt8) {len : UInt64} (success : r.error_id = 0)
    (count : (responseImage r ++ back).length = len.toNat) :
    Frames (decodeResponse (senderResponseDecoder len)) (responseImage r ++ back)
      (.inPlace (responseImage r ++ back)) :=
  frames_success (frames_fixed Reply.inPlace count) success

theorem frames_plain (r : Response) (success : r.error_id = 0) :
    Frames (decodeResponse (senderResponseDecoder 8)) (responseImage r) (.inPlace (responseImage r)) := by
  have count : (responseImage r ++ []).length = (8 : UInt64).toNat := by simp
  have frames := frames_sender r [] success count
  rwa [List.append_nil] at frames

theorem latestMap_local (r : Response) (back : List UInt8) :
    responseAt (responseImage r ++ back) = responseAt (responseImage r) := by
  have alone := responseAt_image r []
  rw [List.append_nil] at alone
  rw [responseAt_image,alone]

@[simp] theorem statusHeader_length (resp : ClusterStatusResponse) : (statusHeader resp).length = 32 := by
  simp [statusHeader]

/-- The words a decoder reads in the first 32 bytes are not touched by what follows. -/
theorem status_local (front back : List UInt8) (count : front.length = 32) :
    responseAt (front ++ back) = responseAt front ∧ field32 8 (front ++ back) = field32 8 front ∧
      field32 16 (front ++ back) = field32 16 front ∧ field32 24 (front ++ back) = field32 24 front := by
  have word : ∀ offset, offset + 4 ≤ 32 → field32 offset (front ++ back) = field32 offset front := by
    intro offset inside
    rw [field32,field32,field_append _ _ _ _ (by omega)]
  refine ⟨?_,word 8 (by omega),word 16 (by omega),word 24 (by omega)⟩
  rw [responseAt,responseAt,word 0 (by omega),word 4 (by omega)]

/-- What the server emits for a response, the client's choice of decoder takes exactly. -/
theorem object_response_framed (resp : ObjectResponse) (fits : resp.super.error_id = 0 → objectFits resp) :
    ∃ bytes reply decoder, encodeResponse ObjectResponse.super objectResponseEncoder resp = .ok bytes ∧
      objectResponseDecoder[resp.id]? = some decoder ∧ Frames (decodeResponse decoder) bytes reply ∧
      ∃ back, bytes = responseImage resp.super ++ back := by
  have listed : ∃ decoder, objectResponseDecoder[resp.id]? = some decoder := by
    cases resp <;> exact ⟨_,rfl⟩
  by_cases success : resp.super.error_id = 0
  · have room := fits success
    rw [encodeResponse,if_pos success]
    cases resp with
    | get resp =>
      obtain ⟨object,image,frames⟩ := frames_object Reply.inPlace (responseImage resp.super) (by simp) room
      exact ⟨_,_,_,bind_ok.mpr ⟨object,image,rfl⟩,rfl,frames_success frames success,object,rfl⟩
    | list resp =>
      have frames := frames_objectList resp room
      have split := List.append_assoc (responseImage resp.super) (image32 resp.length)
        (resp.object_list.flatMap sentImage)
      rw [listImage,split] at frames
      have whole := frames_success frames success
      rw [← split] at whole
      exact ⟨_,_,_,objectResponseEncoderList_ok resp room,rfl,whole,_,split⟩
    | put resp => exact ⟨_,_,_,rfl,rfl,frames_plain _ success,[],by simp [ObjectResponse.super]⟩
    | delete resp => exact ⟨_,_,_,rfl,rfl,frames_plain _ success,[],by simp [ObjectResponse.super]⟩
    | stop resp => exact ⟨_,_,_,rfl,rfl,frames_plain _ success,[],by simp [ObjectResponse.super]⟩
  · obtain ⟨decoder,found⟩ := listed
    rw [encodeResponse,if_neg success]
    exact ⟨_,_,decoder,rfl,found,frames_failure decoder success,[],by simp [errorResponseEncoder]⟩

theorem cluster_response_framed (resp : ClusterResponse) (fits : resp.super.error_id = 0 → clusterFits resp) :
    ∃ bytes reply decoder, encodeResponse ClusterResponse.super clusterResponseEncoder resp = .ok bytes ∧
      clusterResponseDecoder[resp.id]? = some decoder ∧ Frames (decodeResponse decoder) bytes reply ∧
      ∃ back, bytes = responseImage resp.super ++ back := by
  have listed : ∃ decoder, clusterResponseDecoder[resp.id]? = some decoder := by
    cases resp <;> exact ⟨_,rfl⟩
  by_cases success : resp.super.error_id = 0
  · have room := fits success
    rw [encodeResponse,if_pos success]
    cases resp with
    | getObjectServiceMapLatestVersion resp =>
      exact ⟨_,_,_,rfl,rfl,frames_sender _ _ success (by simp),_,rfl⟩
    | getLatestObjectServiceMap resp =>
      obtain ⟨reply,frames⟩ := frames_map (responseImage resp.super)
        (fun buffer os_map => .latestMap (responseAt buffer) os_map)
        (fun back os_map => by rw [latestMap_local]) room (by simp)
      rw [responseImage_length] at frames
      have dumped := dump_ok room.counts room.small
      exact ⟨_,reply,_,bind_ok.mpr ⟨_,dumped,rfl⟩,rfl,frames_success frames success,_,rfl⟩
    | keepAliveObjectService resp => exact ⟨_,_,_,rfl,rfl,frames_sender _ _ success (by simp),_,rfl⟩
    | keepAliveClient resp => exact ⟨_,_,_,rfl,rfl,frames_sender _ _ success (by simp),_,rfl⟩
    | status resp =>
      obtain ⟨reply,frames⟩ := frames_map (statusHeader resp)
        (fun buffer os_map => .status (responseAt buffer) (field32 8 buffer).toUInt64
          (field32 16 buffer).toUInt64 (field32 24 buffer).toUInt64 os_map)
        (fun back os_map => by
          obtain ⟨header,total_objects,used,free⟩ := status_local (statusHeader resp) back (by simp)
          rw [header,total_objects,used,free])
        room (by simp)
      rw [statusHeader_length] at frames
      have dumped := dump_ok room.counts room.small
      have split := List.append_assoc (responseImage resp.super)
        (image64 resp.total_objects ++ (image64 resp.used ++ image64 resp.free)) (mapImage resp.os_map)
      refine ⟨_,reply,_,bind_ok.mpr ⟨_,dumped,rfl⟩,rfl,?_,_,split⟩
      rw [statusHeader,split] at frames ⊢
      exact frames_success frames success
    | stop resp => exact ⟨_,_,_,rfl,rfl,frames_plain _ success,[],by simp [ClusterResponse.super]⟩
  · obtain ⟨decoder,found⟩ := listed
    rw [encodeResponse,if_neg success]
    exact ⟨_,_,decoder,rfl,found,frames_failure decoder success,[],by simp [errorResponseEncoder]⟩

end Muti.Agreement
