import EpisodicReplay.Buffer

/-! What an observer sees of a store and of a buffer between two cycles. -/

namespace EpisodicReplay

structure Store.Overview where
  persistent : Bool
  nextId : Option UInt32
  cached : Nat
  capacity : Nat
  /-- Summaries of the known episodes, oldest first. -/
  episodes : List IndexRecord

def Store.overview {capacity : Nat} (store : Store capacity) (files : Files) : Store.Overview where
  persistent := store.isPersistent
  nextId := store.nextId
  cached := store.cache.size
  capacity := capacity
  episodes := store.records files

structure Buffer.Overview where
  historySize : Nat
  lastSequence : Nat
  capturing : Bool
  remaining : Option Nat
  debounce : Nat
  store : Store.Overview

def Buffer.overview {historyCapacity storeCapacity : Nat} (buffer : Buffer historyCapacity storeCapacity)
    (files : Files) : Buffer.Overview where
  historySize := buffer.history.size
  lastSequence := buffer.history.lastSequence
  capturing := buffer.capture.isCapturing
  remaining := buffer.capture.remaining?
  debounce := buffer.capture.debounce
  store := buffer.store.overview files

end EpisodicReplay
