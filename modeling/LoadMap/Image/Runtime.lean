import LoadMap.Image.Address

/-! The managed part of an image: a runtime header that points to the metadata. -/
namespace LoadMap.Image

def metadata? (image : Image) : Except Fault (Option ByteArray) := do
  match image.directory? runtimeDirectory with
  | none => return none
  | some directory =>
    let address ← image.u32At (← addressSum directory.address 8)
    let size ← image.u32At (← addressSum directory.address 12)
    if address = 0 then return none
    return some (← image.bytesAt address size)

end LoadMap.Image
