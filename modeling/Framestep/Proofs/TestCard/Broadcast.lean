import Framestep.Proofs.Session.Showing
import Framestep.Proofs.TestCard.Drawing
import Framestep.Proofs.Video.Admission
import Framestep.TestCard.Card

/-!
# The frame of a test card on its way

A test card draws its frame in the storage of the mailbox, over whatever an earlier picture has
left there, and announces it.  `CardPicture.frame_exact` says what becomes of this.  The drawing is
exact over any bytes; over the bytes of a whole frame it is one picture, whatever they were before;
and this picture is what the next host frame shows that gets as far as to wait for one, unless
somebody else uses the mailbox in between.
-/

namespace Framestep

variable {κ : Type}

namespace Card

/-- The session after the card has drawn frame `n` into its feed. -/
def broadcast (card : Card) (n : Nat) (memory : Memory) (session : Session κ) : Session κ :=
  { session with feed := (card.emitFrame n session.feed memory).2 }

/-- The card draws frame `n` into the session, and this picture is shown by the next host frame,
if that waits for a picture and nobody uses the mailbox before. -/
structure IsShown (card : Card) (n : Nat) (memory : Memory) (session : Session κ) (view : View) :
    Prop where
  emitted : (card.emitFrame n session.feed memory).1 = .done ()
  shown : ∀ (between : List (Session.Op κ)) (host : Host κ),
    let later := ((card.broadcast n memory session).performAll between).2
    (∀ op ∈ between, op.SparesMailbox) →
    (later.begun.forwardInput host).progress.fed.LeavesMailbox →
      ((∀ known, later.lastSize = some known → known.FitsInt32) → host.Attends →
        later.Waits host) ∧
      (later.Waits host → later.Presents host view)

variable {card : Card} {n : Nat} {memory : Memory} {image : Array UInt8} {feed : Feed}
variable {floor : Nat}

theorem byteCount_packedLayout (size : Size) :
    size.packedLayout.byteCount = 4 * (size.height * size.width) :=
  Nat.mul_left_comm size.height 4 size.width

/-- A card in a running session cannot get the storage for its picture, or it draws over exactly as
many bytes as the picture has.  The picture is announced if the drawing comes to its end. -/
theorem emitFrame_cases (h : feed.Running floor) (card : Card) (n : Nat) (memory : Memory) :
    feed.mailbox.room memory < card.size.packedLayout.byteCount ∧
        card.emitFrame n feed memory = (.done (), feed) ∨
    card.size.packedLayout.byteCount ≤ feed.mailbox.room memory ∧
      ∃ (given : Array UInt8) (painting : Painting) (box : Mailbox),
        given.size = card.size.packedLayout.byteCount ∧
        painting = CardPicture.draw card.size n card.input given ∧
        box.WellFormed ∧ box.closed = false ∧ box.layout = card.size.packedLayout ∧
        box.pixels =
          Mailbox.drawn feed.mailbox.pixels painting.pixels card.size.packedLayout.byteCount ∧
        box.available = (feed.mailbox.available || painting.finished) ∧
        card.emitFrame n feed memory =
          (if painting.finished then .done () else .aborted, { feed with mailbox := box }) := by
  have hrows : card.size.packedLayout.rowBytes ≤ card.size.packedLayout.stride := Nat.le_refl _
  have hroom := Mailbox.room_le h.mailbox memory
  unfold emitFrame Feed.paint
  generalize card.size.packedLayout = layout at hrows ⊢
  rcases Mailbox.paint_cases h.mailbox layout memory with
    ⟨fault, hobjection, hpaint⟩ | ⟨hadmits, given, hgiven, hpaint⟩
  · -- Rows without padding fit, so the picture is only refused for want of storage.
    have hlarge : ¬ layout.byteCount ≤ feed.mailbox.room memory := by
      intro hobtained
      have htaken := (Layout.refusal?_eq_none_iff hroom).mpr
        ⟨hrows, Nat.le_refl _, h.opened, hobtained⟩
      rw [hobjection.refusal?] at htaken
      cases htaken
    refine .inl ⟨Nat.lt_of_not_le hlarge, ?_⟩
    rw [hpaint]
  · have htaken := (Mailbox.refusal?_eq_none_iff h.mailbox).mpr hadmits
    obtain ⟨-, -, -, hobtained⟩ := (Layout.refusal?_eq_none_iff hroom).mp htaken
    obtain ⟨painting, hpainting⟩ :
        ∃ painting, painting = CardPicture.draw card.size n card.input given := ⟨_, rfl⟩
    refine .inr ⟨hobtained, given, painting, _, hgiven, hpainting,
      Mailbox.wellFormed_drawn h.mailbox htaken painting.pixels
        (feed.mailbox.available || painting.finished), h.opened, rfl, rfl, rfl, ?_⟩
    rw [hpaint, ← hpainting]
    cases painting.finished with
    | true => simp [Feed.signal, Mailbox.signal_eq, h.opened]
    | false => simp

/-- A card that draws a whole picture leaves this picture announced in the mailbox, whatever was
there. -/
theorem emitFrame_of_image (h : feed.Running floor)
    (hobtained : card.size.packedLayout.byteCount ≤ feed.mailbox.room memory)
    (hsize : image.size = card.size.packedLayout.byteCount)
    (himage : ∀ before : Array UInt8, before.size = card.size.packedLayout.byteCount →
      CardPicture.draw card.size n card.input before = ⟨image, true⟩) :
    ∃ box : Mailbox, card.emitFrame n feed memory = (.done (), { feed with mailbox := box }) ∧
      box.closed = false ∧ box.WellFormed ∧
      (0 < card.size.width → 0 < card.size.height →
        box.collect.1 = .done (.presented ⟨card.size.packedLayout, image⟩)) := by
  obtain ⟨hlarge, -⟩ | ⟨-, given, painting, box, hgiven, hpainting, hwell, hopen, hlayout, hpixels,
      havailable, hemits⟩ := emitFrame_cases h card n memory
  · exact absurd hobtained (Nat.not_le_of_lt hlarge)
  · obtain rfl : painting = ⟨image, true⟩ := hpainting.trans (himage given hgiven)
    refine ⟨box, hemits, hopen, hwell, fun hwidth hheight => ?_⟩
    -- The storage begins with the image, for the painter has been given all of its bytes.
    have hbegins : firstOf box.pixels box.layout.byteCount = image := by
      rw [hpixels, hlayout, Mailbox.firstOf_drawn (Nat.le_of_eq hsize.symm), firstOf,
        if_pos (Nat.le_of_eq hsize)]
    rw [Mailbox.collect_eq_presented_iff hwell, hbegins, hlayout]
    exact ⟨hopen, havailable.trans (Bool.or_true _), ⟨hwidth, hheight⟩, rfl⟩

/-- Announced in the mailbox of a running session, the picture waits for the next host frame. -/
theorem isShown_of_image {session : Session κ} (h : session.feed.Running floor)
    (hwidth : 0 < card.size.width) (hheight : 0 < card.size.height)
    (hobtained : card.size.packedLayout.byteCount ≤ session.feed.mailbox.room memory)
    (hsize : image.size = card.size.packedLayout.byteCount)
    (himage : ∀ before : Array UInt8, before.size = card.size.packedLayout.byteCount →
      CardPicture.draw card.size n card.input before = ⟨image, true⟩) :
    card.IsShown n memory session ⟨card.size.packedLayout, image⟩ := by
  obtain ⟨box, hemits, hopen, hwell, hview⟩ := emitFrame_of_image h hobtained hsize himage
  constructor
  case emitted => rw [hemits]
  case shown =>
    intro between host later hbetween hspares
    have hkeeps : (card.broadcast n memory session).Keeps floor box := by
      rw [broadcast, hemits]
      exact ⟨h.withMailbox hopen hwell, rfl⟩
    have hlater : later.Keeps floor box := Session.keeps_performAll hkeeps hbetween
    exact ⟨Session.waits_of_attends hlater.running, fun hwaits =>
      Session.presents_of_waits hlater hwaits hspares (hview hwidth hheight)⟩

end Card

namespace CardPicture

/-- The frame of a card of any size, with the pointer anywhere the square can be placed.  It is
drawn exactly over any bytes.  Over the bytes of a whole frame it is one image, and in a running
session that can have the storage for it, this image is shown without padding. -/
theorem frame_exact {size : Size} {n : Nat} {input : CardInput} (hwidth : 0 < size.width)
    (hfits : size.FitsInt32) (hsquare : HasSquare input.cursor) :
    (∀ before, Depicts size n input before (draw size n input before)) ∧
      ∃ image : Array UInt8, image.size = 4 * (size.height * size.width) ∧
        (∀ before : Array UInt8, before.size = 4 * (size.height * size.width) →
          draw size n input before = ⟨image, true⟩) ∧
        (0 < size.height →
          ∀ card : Card, card.size = size → card.input = input →
          ∀ (settings : Settings) (asksGui : Bool) (session : Session κ),
          Session.create settings asksGui = .done session →
          ∀ ops : List (Session.Op κ), (session.performAll ops).2.feed.phase = .ready →
          ∀ memory : Memory,
          4 * (size.height * size.width) ≤
              (session.performAll ops).2.feed.mailbox.room memory →
            card.IsShown n memory (session.performAll ops).2
              ⟨⟨size.width, size.height, 4 * size.width⟩, image⟩) := by
  obtain ⟨image, hsize, himage⟩ : ∃ image : Array UInt8,
      image.size = 4 * (size.height * size.width) ∧
        ∀ before : Array UInt8, before.size = 4 * (size.height * size.width) →
          draw size n input before = ⟨image, true⟩ := exists_image hwidth hfits hsquare
  refine ⟨depicts_draw hwidth hfits hsquare, image, hsize, himage, ?_⟩
  rintro hheight card rfl rfl settings asksGui session hcreate ops hready memory hobtained
  obtain ⟨floor, hrunning⟩ := Session.running_of_ready hcreate ops hready
  rw [← Card.byteCount_packedLayout] at hobtained hsize himage
  exact Card.isShown_of_image hrunning hwidth hheight hobtained hsize himage

/-- The law at work on a card of two by two pixels over a larger picture that waits, whose storage
has to do, for there is no more memory.  A button is held, and the square reaches into the upper row
only.  The callbacks are registered when the frame has been drawn already, and sound is queued while
the host is asked to look at its controls. -/
theorem frame_exact_of_small_card :
    let settings : Settings :=
      { audioCapacity := 2, audioCeiling := 3, audioBatch := 1, batchesPerFrame := 1 }
    let session : Session Unit := .unstarted settings false
    let ops : List (Session.Op Unit) :=
      [.start {}, .produce (.submit ⟨1, 5, 5⟩ (Array.replicate 25 9))]
    let input : CardInput := ⟨⟨1, -7⟩, 1, 0⟩
    let card : Card := { Card.create ⟨2, 2⟩ 0 with input }
    let between : List (Session.Op Unit) :=
      [.produce (.setRate 22050), .register .video (), .register .poll (), .register .level ()]
    let host : Host Unit :=
      { returns := fun _ _ => true, level := fun _ _ _ => 0, guiVisible := fun _ => false
        feeds := fun _ call => if call.isVideo then [] else [.push [5, -5] 1] }
    let memory : Memory := { largest := 0 }
    let later := ((card.broadcast 3 memory (session.performAll ops).2).performAll between).2
    let image : Array UInt8 := #[0, 255, 0, 0, 0, 128, 255, 0, 0, 255, 0, 0, 255, 0, 255, 0]
    Session.create settings false = .done session ∧
      (session.performAll ops).2.feed.phase = .ready ∧ HasSquare input.cursor ∧
      draw ⟨2, 2⟩ 3 input (Array.replicate 16 7) = ⟨image, true⟩ ∧
      (∀ before, Depicts ⟨2, 2⟩ 3 input before (draw ⟨2, 2⟩ 3 input before)) ∧
      (card.emitFrame 3 (session.performAll ops).2.feed memory).1 = .done () ∧
      later.Presents host ⟨⟨2, 2, 8⟩, image⟩ ∧
      (later.frame host).calls =
        [.poll (), .level () (.pointer .x), .level () (.pointer .y),
          .video () ⟨⟨2, 2, 8⟩, image⟩] := by
  intro settings session ops input card between host memory later image
  have hcreate : Session.create settings false = .done session := rfl
  have hready : (session.performAll ops).2.feed.phase = .ready := by decide +kernel
  have hsquare : HasSquare input.cursor := ⟨by decide, by decide⟩
  have hfits : (⟨2, 2⟩ : Size).FitsInt32 := ⟨by decide, by decide⟩
  have hdraw : draw ⟨2, 2⟩ 3 input (Array.replicate 16 7) = ⟨image, true⟩ := by
    have hpixels : (draw ⟨2, 2⟩ 3 input (Array.replicate 16 7)).pixels = image := by
      decide +kernel
    have hfinished : (draw ⟨2, 2⟩ 3 input (Array.replicate 16 7)).finished = true := by
      decide +kernel
    rw [← hpixels, ← hfinished]
  obtain ⟨hdepicts, drawn, -, hsame, hshown⟩ :=
    @frame_exact Unit ⟨2, 2⟩ 3 input (by decide) hfits hsquare
  -- The image that the law speaks of is the one computed over some bytes.
  obtain rfl : drawn = image := by
    have hboth := (hsame (Array.replicate 16 7) Array.size_replicate).symm.trans hdraw
    exact congrArg Painting.pixels hboth
  have hroom : 4 * (2 * 2) ≤ (session.performAll ops).2.feed.mailbox.room memory := by
    decide +kernel
  have hcard := hshown (by decide) card rfl rfl settings false session hcreate ops hready memory
    hroom
  have hbetween : ∀ op ∈ between, op.SparesMailbox := by
    simp [between, Session.Op.SparesMailbox, Feed.Op.isPicture]
  have hspares : (later.begun.forwardInput host).progress.fed.LeavesMailbox := by
    unfold Feed.Log.LeavesMailbox
    decide +kernel
  obtain ⟨hwaits, hpresents⟩ := hcard.shown between host hbetween hspares
  have hlast : later.lastSize = none := by decide +kernel
  have hattends : host.Attends := by
    refine ⟨fun _ _ _ _ => rfl, ?_⟩
    intro past call hvideo _ feed floor hfeed
    obtain ⟨queue, hqueue⟩ := hfeed.queues
    simp only [host, hvideo, Bool.false_eq_true, if_false]
    exact Feed.complete_push hqueue [5, -5] (by decide) .ample
  have hlater : later.Waits host := hwaits (by simp [later, hlast]) hattends
  have hcalls : (later.frame host).calls =
      [.poll (), .level () (.pointer .x), .level () (.pointer .y),
        .video () ⟨⟨2, 2, 8⟩, image⟩] := by decide +kernel
  exact ⟨hcreate, hready, hsquare, hdraw, hdepicts, hcard.emitted, hpresents hlater, hcalls⟩

end CardPicture
end Framestep
