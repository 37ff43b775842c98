import VisibleDifference.Comparison.Verdict
import VisibleDifference.Comparison.Difference
import VisibleDifference.Picture.Bitmap

/-!
# Workbench

Named bitmaps and one set of viewing conditions, changed and questioned step by step. A shape that
does not fit its bytes is kept and reported by every question about that bitmap until it is mended.
-/

namespace VisibleDifference

/-- A change of one viewing condition. -/
inductive Adjustment where
  | gamma (value : Float32)
  | luminance (value : Float32)
  | fieldOfView (value : Float32)
  | threshold (value : Nat)
  | wantsMap (value : Bool)

def Conditions.adjust (c : Conditions) : Adjustment → Conditions
  | .gamma value => { c with gamma := value }
  | .luminance value => { c with luminance := value }
  | .fieldOfView value => { c with fieldOfView := value }
  | .threshold value => { c with threshold := value }
  | .wantsMap value => { c with wantsMap := value }

inductive Question where
  | compare
  | perceive
  | identical
  | difference

inductive Request where
  | adjust (change : Adjustment)
  | overwrite (name : String) (offset : Nat) (values : ByteArray)
  | reshape (name : String) (width height : Nat) (stride : Option Nat)
  | ask (question : Question) (left right : String)

inductive Reply where
  | conditions (c : Conditions)
  | overwritten
  | shape (stride pixelCount : Nat)
  | verdict (v : Verdict)
  | finding (f : Finding)
  | identical (answer : Bool)
  | difference (d : Difference)
  | fault (f : Fault)
  | noSuchBitmap (name : String)
  | pastTheEnd (name : String)

def Question.answer (c : Conditions) (a b : Picture) : Question → Except Fault Reply
  | .compare => (Picture.compare c a b).map .verdict
  | .perceive => (Picture.perceive c a b).map .finding
  | .identical => .ok (.identical (a.identical b))
  | .difference => (a.difference b).map .difference

structure Workbench where
  bitmaps : List (String × RawBitmap)
  conditions : Conditions

namespace Workbench

def replace (w : Workbench) (name : String) (r : RawBitmap) : Workbench :=
  { w with bitmaps := w.bitmaps.map fun b => if b.1 = name then (name, r) else b }

def orFault : Except Fault Reply → Reply
  | .ok reply => reply
  | .error f => .fault f

/-- The left bitmap is opened first. -/
def ask (c : Conditions) (q : Question) (left right : RawBitmap) : Except Fault Reply := do
  let a ← left.bitmap
  let b ← right.bitmap
  q.answer c a.picture b.picture

def step (w : Workbench) : Request → Workbench × Reply
  | .adjust change =>
      let c := w.conditions.adjust change
      ({ w with conditions := c }, .conditions c)
  | .overwrite name offset values =>
      match w.bitmaps.lookup name with
      | none => (w, .noSuchBitmap name)
      | some r =>
          match r.overwritten offset values with
          | none => (w, .pastTheEnd name)
          | some r => (w.replace name r, .overwritten)
  | .reshape name width height stride =>
      match w.bitmaps.lookup name with
      | none => (w, .noSuchBitmap name)
      | some r =>
          let r := r.reshaped width height stride
          (w.replace name r, orFault (r.bitmap.map fun b => .shape b.stride b.pixelCount))
  | .ask q left right =>
      match w.bitmaps.lookup left, w.bitmaps.lookup right with
      | none, _ => (w, .noSuchBitmap left)
      | _, none => (w, .noSuchBitmap right)
      | some a, some b => (w, orFault (ask w.conditions q a b))

/-- The replies to a list of requests. -/
def replies (w : Workbench) : List Request → List Reply
  | [] => []
  | r :: rs => (w.step r).2 :: (w.step r).1.replies rs

end Workbench

end VisibleDifference
