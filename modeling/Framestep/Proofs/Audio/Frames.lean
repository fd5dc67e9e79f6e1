import Framestep.Audio.Block
import Mathlib.Data.List.DropRight

/-!
# Stereo frames and their samples

The stream is stored and handed over as interleaved samples, and its laws are
about stereo frames.  This module goes from one form to the other: `ofSamples`
pairs samples up, `toSamples` lays frames out again.  The two are inverse to
each other as long as no sample is left without its partner.
-/

namespace Framestep

/-- A stereo frame: the sample of the left channel and that of the right one. -/
abbrev StereoFrame := Int16 × Int16

namespace StereoFrame

/-- The frames that lie one after the other in a list of samples.  A last sample
without its partner is left out. -/
def ofSamples : List Int16 → List StereoFrame
  | [] => []
  | [_] => []
  | left :: right :: rest => (left, right) :: ofSamples rest

/-- Frames laid out as interleaved samples. -/
def toSamples : List StereoFrame → List Int16
  | [] => []
  | (left, right) :: rest => left :: right :: toSamples rest

@[simp] theorem ofSamples_nil : ofSamples [] = [] := rfl

@[simp] theorem ofSamples_cons_cons (left right : Int16) (rest : List Int16) :
    ofSamples (left :: right :: rest) = (left, right) :: ofSamples rest := rfl

@[simp] theorem length_toSamples (frames : List StereoFrame) :
    (toSamples frames).length = 2 * frames.length := by
  induction frames with
  | nil => rfl
  | cons frame rest ih =>
      simp [toSamples, ih]
      omega

theorem toSamples_append (front back : List StereoFrame) :
    toSamples (front ++ back) = toSamples front ++ toSamples back := by
  induction front with
  | nil => rfl
  | cons frame rest ih => simp [toSamples, ih]

@[simp] theorem ofSamples_toSamples (frames : List StereoFrame) :
    ofSamples (toSamples frames) = frames := by
  induction frames with
  | nil => rfl
  | cons frame rest ih => simp [toSamples, ih]

@[simp] theorem length_ofSamples (samples : List Int16) :
    (ofSamples samples).length = samples.length / 2 := by
  fun_induction ofSamples samples with
  | case1 => rfl
  | case2 => simp
  | case3 left right rest ih =>
      simp only [List.length_cons, ih]
      omega

theorem toSamples_ofSamples (samples : List Int16) (heven : samples.length % 2 = 0) :
    toSamples (ofSamples samples) = samples := by
  fun_induction ofSamples samples with
  | case1 => rfl
  | case2 => simp at heven
  | case3 left right rest ih =>
      have hrest : rest.length % 2 = 0 := by
        simp only [List.length_cons] at heven
        omega
      simp [toSamples, ih hrest]

/-- The frame at a position takes up the two samples at twice that position. -/
theorem ofSamples_getElem (samples : List Int16) (n : Nat)
    (hn : n < (ofSamples samples).length) :
    (ofSamples samples)[n] = (samples.getD (2 * n) 0, samples.getD (2 * n + 1) 0) := by
  induction n generalizing samples with
  | zero =>
      match samples, hn with
      | left :: right :: rest, _ => simp
  | succ n ih =>
      match samples, hn with
      | left :: right :: rest, hn =>
        have hrest : n < (ofSamples rest).length := by
          simpa using hn
        have hplace : 2 * (n + 1) = 2 * n + 1 + 1 := by omega
        simp [ih rest hrest, hplace]

theorem ofSamples_getD (samples : List Int16) (n : Nat) (d : StereoFrame)
    (hn : n < samples.length / 2) :
    (ofSamples samples).getD n d = (samples.getD (2 * n) 0, samples.getD (2 * n + 1) 0) := by
  have hin : n < (ofSamples samples).length := by simpa using hn
  rw [List.getD_eq_getElem?_getD, List.getElem?_eq_getElem hin, Option.getD_some,
    ofSamples_getElem]

theorem ofSamples_append (front back : List Int16) (heven : front.length % 2 = 0) :
    ofSamples (front ++ back) = ofSamples front ++ ofSamples back := by
  fun_induction ofSamples front with
  | case1 => rfl
  | case2 => simp at heven
  | case3 left right rest ih =>
      have hrest : rest.length % 2 = 0 := by
        simp only [List.length_cons] at heven
        omega
      simp [ih hrest]

theorem ofSamples_take (samples : List Int16) (n : Nat) :
    ofSamples (samples.take (2 * n)) = (ofSamples samples).take n := by
  induction n generalizing samples with
  | zero => simp
  | succ n ih =>
      -- one frame less is two samples less, so the cases are those of `ofSamples`
      match samples with
      | [] => rfl
      | [_] => simp [ofSamples, Nat.mul_succ]
      | left :: right :: rest => simp [Nat.mul_succ, ih]

theorem length_take_ofSamples {samples : List Int16} {frames : Nat}
    (hsamples : 2 * frames ≤ samples.length) :
    ((ofSamples samples).take frames).length = frames := by
  rw [List.length_take, length_ofSamples]
  omega

theorem ofSamples_drop (samples : List Int16) (n : Nat) :
    ofSamples (samples.drop (2 * n)) = (ofSamples samples).drop n := by
  induction n generalizing samples with
  | zero => simp
  | succ n ih =>
      match samples with
      | [] => rfl
      | [_] => simp [ofSamples, Nat.mul_succ]
      | left :: right :: rest => simp [Nat.mul_succ, ih]

end StereoFrame

end Framestep
