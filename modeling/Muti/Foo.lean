import Mathlib.Data.List.GetD
import Muti.Agreement
import Muti.Records

/-! The foo resource of the example service: its requests and responses, the encoders of
each side and the decoders of the other. A record is sent as it lies in memory, its list
element and its path pointer included. -/
namespace Muti

structure ListElement where
  next : UInt64
  prev : UInt64
  deriving DecidableEq, Repr

/-- The fields of a `Foo` behind its list element; `data` is its flexible array. -/
structure FooFields where
  id : Int32
  bucket : Vector UInt8 64
  padding : UInt32
  path_length : UInt64
  path : UInt64
  size : UInt64
  data : List UInt8
  deriving DecidableEq, Repr

structure Foo extends FooFields where
  element : ListElement
  deriving DecidableEq, Repr

structure FooGetRequest where
  super : Request
  id : Int32
  deriving DecidableEq, Repr

structure FooPutRequest where
  super : Request
  foo : Foo
  deriving DecidableEq, Repr

structure FooListRequest where
  super : Request
  page : Int32
  page_size : Int32
  deriving DecidableEq, Repr

structure FooGetResponse where
  super : Response
  foo : Foo
  deriving DecidableEq, Repr

structure FooPutResponse where
  super : Response
  deriving DecidableEq, Repr

/-- As the decoder builds it; the elements of the records are those of its own list. -/
structure FooListResponse where
  super : Response
  length : UInt32
  foo_head : List FooFields
  deriving DecidableEq, Repr

inductive FooReply where
  | inPlace (bytes : List UInt8)
  | list (resp : FooListResponse)
  deriving DecidableEq, Repr

namespace Foo

open Muti.Bytes Muti.Memory Muti.Resource Muti.Records

def headerImage (s : Foo) : List UInt8 :=
  image64 s.element.next ++ (image64 s.element.prev ++ (image32 s.id.toUInt32 ++ (s.bucket.toList ++ (image32 s.padding ++
    (image64 s.path_length ++ (image64 s.path ++ image64 s.size))))))

/-- `sizeof(*s) + s->path_length` bytes of memory from `s` on. -/
def fooImage (s : Foo) : Except Fault (List UInt8) := do
  let path ← readFirst s.path_length.toNat s.data
  .ok (headerImage s ++ path)

def bucketAt (pos : Nat) (buffer : List UInt8) : Vector UInt8 64 := Vector.ofFn fun i => buffer.getD (pos + i) 0

def fieldsAt (pos : Nat) (buffer : List UInt8) : FooFields where
  id := (field32 (pos + 16) buffer).toInt32
  bucket := bucketAt (pos + 20) buffer
  padding := field32 (pos + 84) buffer
  path_length := field64 (pos + 88) buffer
  path := field64 (pos + 96) buffer
  size := field64 (pos + 104) buffer
  data := (buffer.drop (pos + 112)).take (field64 (pos + 88) buffer).toNat

def fooAt (pos : Nat) (buffer : List UInt8) : Foo :=
  { fieldsAt pos buffer with element := ⟨field64 pos buffer,field64 (pos + 8) buffer⟩ }

def fooRequestEncoderGet (req : FooGetRequest) : Except Fault (List UInt8) :=
  .ok (requestImage req.super ++ image32 req.id.toUInt32)

def fooRequestEncoderPut (req : FooPutRequest) : Except Fault (List UInt8) := do
  let foo ← fooImage req.foo
  .ok (requestImage req.super ++ foo)

def fooRequestEncoderList (req : FooListRequest) : Except Fault (List UInt8) :=
  .ok (requestImage req.super ++ (image32 req.page.toUInt32 ++ image32 req.page_size.toUInt32))

def receive (path : Option Nat) (bytes : List UInt8) : ReceivedRequest := ⟨bytes,path⟩

def fooRequestDecoderGet : Decoder ReceivedRequest := fixedDecoder 12 (receive none)

/-- The path is made to point behind the struct. -/
def fooRequestDecoderPut : Decoder ReceivedRequest := pathDecoder 120 96 (receive (some 120))

def fooRequestDecoderList : Decoder ReceivedRequest := fixedDecoder 16 (receive none)

def fooRequestDecoder : List (Decoder ReceivedRequest) :=
  [fooRequestDecoderGet,fooRequestDecoderPut,fooRequestDecoderList]

def fooResponseEncoderGet (resp : FooGetResponse) : Except Fault (List UInt8) := do
  let foo ← fooImage resp.foo
  .ok (responseImage resp.super ++ foo)

def fooResponseEncoderPut (resp : FooPutResponse) : Except Fault (List UInt8) :=
  .ok (responseImage resp.super)

def fooResponseDecoderGet : Decoder Reply := errorOr (pathDecoder 120 96 .inPlace)

def fooResponseDecoderPut : Decoder Reply := senderResponseDecoder 8

def layout : Layout FooFields where
  size := 112
  offset := 88
  value := fieldsAt

def fooResponseDecoderList : Decoder FooReply := fun buffer =>
  if buffer.length < 8 then .ok .more
  else if (responseAt buffer).error_id ≠ 0 then .ok (.message (.inPlace (buffer.take 8)) 8)
  else if buffer.length < 12 then .ok .more
  else do
    match ← loop layout buffer (field32 8 buffer).toNat 0 12 with
    | none => .ok .more
    | some (foos,len) => .ok (.message (.list ⟨responseAt buffer,field32 8 buffer,foos⟩) len)

/-- With its path behind it and nothing more, and in a message of a size that is a `size_t`. -/
structure Whole (s : FooFields) : Prop where
  path : s.data.length = s.path_length.toNat
  fits : 120 + s.data.length < 2 ^ 64

@[simp] theorem headerImage_length (s : Foo) : (headerImage s).length = 112 := by
  simp [headerImage]

def image (s : Foo) : List UInt8 := headerImage s ++ s.data

theorem fooImage_whole (whole : Whole s.toFooFields) : fooImage s = .ok (image s) := by
  rw [fooImage,readFirst_all whole.path.symm]
  rfl

theorem bucketAt_toList (front : List UInt8) (bucket : Vector UInt8 64) (back : List UInt8) :
    bucketAt front.length (front ++ (bucket.toList ++ back)) = bucket := by
  apply Vector.ext
  intro i inside
  rw [bucketAt,Vector.getElem_ofFn,List.getD_append_right _ _ _ _ (by simp),
    List.getD_append _ _ _ _ (by simpa using inside)]
  simp [inside]

/-- A word stands behind `middle` in what was written. -/
theorem word64 (front middle : List UInt8) {written : List UInt8} (split : written = middle ++ (image64 x ++ later))
    (here : offset = middle.length) : field64 (front.length + offset) (front ++ written) = x := by
  have word := Agreement.field_word (front ++ middle) (front.length + offset) (by simp [here]) x later
  rwa [List.append_assoc,← split] at word

theorem word32 (front middle : List UInt8) {written : List UInt8} (split : written = middle ++ (image32 x ++ later))
    (here : offset = middle.length) : field32 (front.length + offset) (front ++ written) = x := by
  subst here split
  rw [← List.append_assoc,field32,field_skip _ _ _ _ (by simp),List.length_append,Nat.sub_self]
  exact field32_image32 x later

theorem path_length_image (front : List UInt8) (s : Foo) (back : List UInt8) :
    field64 (front.length + 88) (front ++ (headerImage s ++ back)) = s.path_length := by
  let links := image64 s.element.next ++ image64 s.element.prev
  let start := links ++ (image32 s.id.toUInt32 ++ (s.bucket.toList ++ image32 s.padding))
  exact word64 front start (by simp only [headerImage,start,links,List.append_assoc]; rfl) (by simp [start,links])

/-- What was written is read back, wherever it stands. -/
theorem fooAt_image (front : List UInt8) (whole : Whole s.toFooFields) (back : List UInt8) :
    fooAt front.length (front ++ (image s ++ back)) = s := by
  let links := image64 s.element.next ++ image64 s.element.prev
  let start := links ++ (image32 s.id.toUInt32 ++ (s.bucket.toList ++ image32 s.padding))
  have next : field64 (front.length + 0) (front ++ (image s ++ back)) = s.element.next :=
    word64 front [] (by simp only [image,headerImage,List.append_assoc]; rfl) rfl
  have prev : field64 (front.length + 8) (front ++ (image s ++ back)) = s.element.prev :=
    word64 front (image64 s.element.next) (by simp only [image,headerImage,List.append_assoc]; rfl) (by simp)
  have id : field32 (front.length + 16) (front ++ (image s ++ back)) = s.id.toUInt32 :=
    word32 front links (by simp only [image,headerImage,links,List.append_assoc]; rfl) (by simp [links])
  have bucket : bucketAt (front.length + 20) (front ++ (image s ++ back)) = s.bucket := by
    have read := bucketAt_toList (front ++ (links ++ image32 s.id.toUInt32)) s.bucket (image32 s.padding ++
      (image64 s.path_length ++ (image64 s.path ++ (image64 s.size ++ (s.data ++ back)))))
    simpa [image,headerImage,links] using read
  have padding : field32 (front.length + 84) (front ++ (image s ++ back)) = s.padding :=
    word32 front (links ++ (image32 s.id.toUInt32 ++ s.bucket.toList))
      (by simp only [image,headerImage,links,List.append_assoc]; rfl) (by simp [links])
  have path_length : field64 (front.length + 88) (front ++ (image s ++ back)) = s.path_length := by
    rw [image,List.append_assoc]
    exact path_length_image front s (s.data ++ back)
  have path : field64 (front.length + 96) (front ++ (image s ++ back)) = s.path :=
    word64 front (start ++ image64 s.path_length)
      (by simp only [image,headerImage,start,links,List.append_assoc]; rfl) (by simp [start,links])
  have size : field64 (front.length + 104) (front ++ (image s ++ back)) = s.size :=
    word64 front (start ++ (image64 s.path_length ++ image64 s.path))
      (by simp only [image,headerImage,start,links,List.append_assoc]; rfl) (by simp [start,links])
  have data : ((front ++ (image s ++ back)).drop (front.length + 112)).take s.path_length.toNat = s.data := by
    have split : front ++ (image s ++ back) = (front ++ headerImage s) ++ (s.data ++ back) := by simp [image]
    rw [split,List.drop_left' (by simp),List.take_left' whole.path]
  rw [Nat.add_zero] at next
  rw [fooAt,fieldsAt,next,prev,id,bucket,padding,path_length,path,size,data,Int32.toInt32_toUInt32]

theorem written_image (whole : Whole s.toFooFields) :
    Written layout (image s) s.toFooFields where
  inside := by decide
  header := by
    rw [image,List.length_append,headerImage_length]
    exact Nat.le_add_right 112 _
  length := by
    intro front back
    rw [image,List.append_assoc]
    change (field64 (front.length + 88) _).toNat = _
    rw [path_length_image,List.length_append,headerImage_length,whole.path]
    exact (Nat.add_sub_cancel_left ..).symm
  value := fun front back => congrArg Foo.toFooFields (fooAt_image front whole back)

theorem frames_foo (value : List UInt8 → α) (front : List UInt8) (count : front.length = 8) (whole : Whole s.toFooFields) :
    Frames (pathDecoder 120 96 value) (front ++ image s) (value (front ++ image s)) := by
  have word := path_length_image front s []
  rw [count,List.append_nil] at word
  rw [image,← List.append_assoc]
  refine frames_path value (front ++ headerImage s) s.data ?_ ?_ ?_ ?_
  · simp [count]
  · simp [count]
  · rw [word]
    exact whole.path.symm
  · simp only [List.length_append,count,headerImage_length]
    exact whole.fits

def listImage (super : Response) (length : UInt32) (foos : List Foo) : List UInt8 :=
  (responseImage super ++ image32 length) ++ (foos.map image).flatten

theorem listImage_length (super : Response) (length : UInt32) (foos : List Foo) :
    (listImage super length foos).length = 12 + (foos.map fun s => 112 + s.data.length).sum := by
  simp [listImage,image,List.length_flatten,Function.comp_def]
  omega

/-- A list of records is taken as a whole, and only as a whole. -/
theorem frames_list (super : Response) (success : super.error_id = 0) {length : UInt32} (count : foos.length = length.toNat)
    (small : length.toNat < 2 ^ 31) (whole : ∀ s ∈ foos, Whole s.toFooFields)
    (fits : (listImage super length foos).length < 2 ^ 64) :
    Frames fooResponseDecoderList (listImage super length foos) (.list ⟨super,length,foos.map Foo.toFooFields⟩) := by
  let front := responseImage super ++ image32 length
  have twelve : front.length = 12 := by simp [front]
  have start : (12 : UInt64) = UInt64.ofNat front.length := by rw [twelve]; rfl
  have written : List.Forall₂ (Written layout) (foos.map image) (foos.map Foo.toFooFields) := by
    rw [List.forall₂_map_left_iff,List.forall₂_map_right_iff,List.forall₂_same]
    exact fun s member => written_image (whole s member)
  have counted : (foos.map image).length = length.toNat := by rw [List.length_map,count]
  have header : ∀ back, responseAt (front ++ back) = super := by
    intro back
    rw [List.append_assoc]
    exact responseAt_image super _
  have announced : ∀ back, field32 8 (front ++ back) = length := by
    intro back
    rw [field32,List.append_assoc,field_skip _ _ _ _ (by simp)]
    simpa [field32] using field32_image32 length back
  refine ⟨?_,?_,fits⟩
  · intro back
    have run := loop_whole written front back (i := 0) (by omega) fits
    rw [counted] at run
    rw [listImage,List.append_assoc]
    change fooResponseDecoderList (front ++ ((foos.map image).flatten ++ back)) = _
    have enough : ¬(front ++ ((foos.map image).flatten ++ back)).length < 12 := by
      rw [List.length_append]
      omega
    rw [fooResponseDecoderList,if_neg (by omega),header,if_neg (not_not.mpr success),if_neg enough,announced,start,run]
    rfl
  · intro p before proper
    by_cases early : p.length < 8
    · rw [fooResponseDecoderList,if_pos early]
    by_cases cut : p.length < 12
    · obtain ⟨rest,split⟩ := before
      have same : responseAt p = super := by
        have whole := header (foos.map image).flatten
        change responseAt (listImage super length foos) = super at whole
        rw [← split,responseAt,field32,field32,field_append _ _ _ _ (by omega),field_append _ _ _ _ (by omega)] at whole
        exact whole
      rw [fooResponseDecoderList,if_neg early,same,if_neg (not_not.mpr success),if_pos cut]
    · obtain ⟨rest,rfl,inside⟩ := Lists.prefix_append_covers before (by change front.length ≤ _; omega)
      have other : rest ≠ (foos.map image).flatten := by
        rintro rfl
        exact proper rfl
      have run := loop_short written front rest (i := 0) (by omega) fits inside other
      rw [counted] at run
      change fooResponseDecoderList (front ++ rest) = _
      rw [fooResponseDecoderList,if_neg early,header,if_neg (not_not.mpr success),if_neg cut,announced,start,run]
      rfl

end Foo
end Muti
