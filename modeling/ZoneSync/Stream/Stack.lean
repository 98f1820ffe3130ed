import ZoneSync.Stream.Buffered
import ZoneSync.Stream.Channel
import ZoneSync.Stream.Counting
import ZoneSync.Stream.Limited
import ZoneSync.Stream.Memory
import ZoneSync.Stream.Zlib

/-!
Stacks of streams: a stream in memory or over a connection, with any number of layers around
it. The type of a stack tells only how many layers it has, and by which library its zlib layers
decompress or compress.
-/

namespace ZoneSync

variable {δ κ σ : Type}

inductive ReadBase where
  | memory (stream : MemoryReader)
  | channel (stream : InboundChannel)

instance : ReadStream ReadBase where
  read n
    | .memory s => stepInside .memory (ReadStream.read n) s
    | .channel s => stepInside .channel (ReadStream.read n) s
  skip n
    | .memory s => stepInside .memory (ReadStream.skip n) s
    | .channel s => stepInside .channel (ReadStream.skip n) s
  consumed
    | .memory s => ReadStream.consumed s
    | .channel s => ReadStream.consumed s
  available
    | .memory s => ReadStream.available s
    | .channel s => ReadStream.available s
  close
    | .memory s => stepInside .memory ReadStream.close s
    | .channel s => stepInside .channel ReadStream.close s

inductive ReadLayer (δ σ : Type) where
  | limited (stream : Limited σ)
  | counting (stream : Counting σ)
  | buffered (stream : BufferedReader σ)
  | zlib (stream : ZlibReader δ σ)

instance [Decompressor δ] [ReadStream σ] : ReadStream (ReadLayer δ σ) where
  read n
    | .limited s => stepInside .limited (ReadStream.read n) s
    | .counting s => stepInside .counting (ReadStream.read n) s
    | .buffered s => stepInside .buffered (ReadStream.read n) s
    | .zlib s => stepInside .zlib (ReadStream.read n) s
  skip n
    | .limited s => stepInside .limited (ReadStream.skip n) s
    | .counting s => stepInside .counting (ReadStream.skip n) s
    | .buffered s => stepInside .buffered (ReadStream.skip n) s
    | .zlib s => stepInside .zlib (ReadStream.skip n) s
  consumed
    | .limited s => ReadStream.consumed s
    | .counting s => ReadStream.consumed s
    | .buffered s => ReadStream.consumed s
    | .zlib s => ReadStream.consumed s
  available
    | .limited s => ReadStream.available s
    | .counting s => ReadStream.available s
    | .buffered s => ReadStream.available s
    | .zlib s => ReadStream.available s
  close
    | .limited s => stepInside .limited ReadStream.close s
    | .counting s => stepInside .counting ReadStream.close s
    | .buffered s => stepInside .buffered ReadStream.close s
    | .zlib s => stepInside .zlib ReadStream.close s

/-- A stream to read from with the given number of layers. -/
def ReadStack (δ : Type) : (layers : Nat) → Type
  | 0 => ReadBase
  | layers + 1 => ReadLayer δ (ReadStack δ layers)

namespace ReadStack

/-- The operations of a stack are those of its outermost layer. -/
@[reducible] def stream [Decompressor δ] : (layers : Nat) → ReadStream (ReadStack δ layers)
  | 0 => inferInstanceAs (ReadStream ReadBase)
  | layers + 1 =>
    let _ : ReadStream (ReadStack δ layers) := stream layers
    inferInstanceAs (ReadStream (ReadLayer δ (ReadStack δ layers)))

instance [Decompressor δ] (layers : Nat) : ReadStream (ReadStack δ layers) := stream layers

end ReadStack

/-- A stream to read from, with however many layers around it. -/
structure Reader (δ : Type) where
  layers : Nat
  stream : ReadStack δ layers

namespace Reader

def base (stream : ReadBase) : Reader δ := ⟨0, stream⟩

def wrap (r : Reader δ) (layer : {σ : Type} → σ → ReadLayer δ σ) : Reader δ :=
  ⟨r.layers + 1, layer r.stream⟩

/-- Gives up the outermost layer for what is below it, if that is still there. Layers that
hold octets of their own stay. -/
def unwrap? : Reader δ → Option (Reader δ)
  | ⟨0, ReadBase.channel s⟩ => if s.isOpen then some (base (.channel s)) else none
  | ⟨layers + 1, ReadLayer.limited s⟩ => if s.isOpen then some ⟨layers, s.inner⟩ else none
  | ⟨layers + 1, ReadLayer.counting s⟩ => if s.isOpen then some ⟨layers, s.inner⟩ else none
  | r => some r

end Reader

inductive WriteBase where
  | memory (stream : MemoryWriter)
  | channel (stream : OutboundChannel)

namespace WriteBase

instance : WriteStream WriteBase where
  write o
    | .memory s => stepInside .memory (WriteStream.write o) s
    | .channel s => stepInside .channel (WriteStream.write o) s
  flush
    | .memory s => stepInside .memory WriteStream.flush s
    | .channel s => stepInside .channel WriteStream.flush s
  close
    | .memory s => stepInside .memory WriteStream.close s
    | .channel s => stepInside .channel WriteStream.close s
  abandon
    | .memory s => .memory (WriteStream.abandon s)
    | .channel s => .channel (WriteStream.abandon s)

def sink : WriteBase → Octets
  | memory s => s.content
  | channel s => s.sent

end WriteBase

inductive WriteLayer (κ σ : Type) where
  | counting (stream : Counting σ)
  | buffered (stream : BufferedWriter σ)
  | zlib (stream : ZlibWriter κ σ)

namespace WriteLayer

instance [Compressor κ] [WriteStream σ] : WriteStream (WriteLayer κ σ) where
  write o
    | .counting s => stepInside .counting (WriteStream.write o) s
    | .buffered s => stepInside .buffered (WriteStream.write o) s
    | .zlib s => stepInside .zlib (WriteStream.write o) s
  flush
    | .counting s => stepInside .counting WriteStream.flush s
    | .buffered s => stepInside .buffered WriteStream.flush s
    | .zlib s => stepInside .zlib WriteStream.flush s
  close
    | .counting s => stepInside .counting WriteStream.close s
    | .buffered s => stepInside .buffered WriteStream.close s
    | .zlib s => stepInside .zlib WriteStream.close s
  abandon
    | .counting s => .counting (WriteStream.abandon s)
    | .buffered s => .buffered (WriteStream.abandon s)
    | .zlib s => .zlib (WriteStream.abandon s)

def inner : WriteLayer κ σ → σ
  | counting s => s.inner
  | buffered s => s.inner
  | zlib s => s.inner

end WriteLayer

def WriteStack (κ : Type) : (layers : Nat) → Type
  | 0 => WriteBase
  | layers + 1 => WriteLayer κ (WriteStack κ layers)

namespace WriteStack

@[reducible] def stream [Compressor κ] : (layers : Nat) → WriteStream (WriteStack κ layers)
  | 0 => inferInstanceAs (WriteStream WriteBase)
  | layers + 1 =>
    let _ : WriteStream (WriteStack κ layers) := stream layers
    inferInstanceAs (WriteStream (WriteLayer κ (WriteStack κ layers)))

instance [Compressor κ] (layers : Nat) : WriteStream (WriteStack κ layers) := stream layers

def sink : (layers : Nat) → WriteStack κ layers → Octets
  | 0, s => WriteBase.sink s
  | layers + 1, s => sink layers (WriteLayer.inner s)

end WriteStack

/-- A stream to write to, with however many layers around it. -/
structure Writer (κ : Type) where
  layers : Nat
  stream : WriteStack κ layers

namespace Writer

def base (stream : WriteBase) : Writer κ := ⟨0, stream⟩

def wrap (w : Writer κ) (layer : {σ : Type} → σ → WriteLayer κ σ) : Writer κ :=
  ⟨w.layers + 1, layer w.stream⟩

def unwrap? : Writer κ → Option (Writer κ)
  | ⟨0, WriteBase.channel s⟩ => if s.isOpen then some (base (.channel s)) else none
  | ⟨layers + 1, WriteLayer.counting s⟩ => if s.isOpen then some ⟨layers, s.inner⟩ else none
  | w => some w

def sink (w : Writer κ) : Octets := WriteStack.sink w.layers w.stream

def abandon [Compressor κ] (w : Writer κ) : Writer κ :=
  { w with stream := WriteStream.abandon w.stream }

end Writer
end ZoneSync
