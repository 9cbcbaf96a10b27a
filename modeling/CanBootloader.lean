import CanBootloader.Lib.Bytes
import CanBootloader.Lib.Crc32
import CanBootloader.Lib.Interleave
import CanBootloader.Lib.Prog
import CanBootloader.Lib.Msgpack
import CanBootloader.Lib.TwoSlots
import CanBootloader.Lib.PagedFlash
import CanBootloader.Lib.Ring
import CanBootloader.Lib.Patch
import CanBootloader.Protocol
import CanBootloader.Firmware.Datagram
import CanBootloader.Firmware.Reader
import CanBootloader.Firmware.Writer
import CanBootloader.Firmware.Cmp
import CanBootloader.Firmware.Platform
import CanBootloader.Firmware.Config
import CanBootloader.Firmware.Command
import CanBootloader.Firmware.Bootloader
import CanBootloader.Firmware.Transmit
import CanBootloader.Firmware.Rounds
import CanBootloader.Firmware.Delivery
import CanBootloader.Firmware.Replies
import CanBootloader.Firmware.BootSafety
import CanBootloader.Firmware.DeviceClass
import CanBootloader.Firmware.Save
import CanBootloader.Firmware.Stm32f4
import CanBootloader.Firmware.Stm32f4Write
import CanBootloader.Firmware.Stm32f1
import CanBootloader.Firmware.CanFifo
import CanBootloader.Firmware.WriteFlash
import CanBootloader.Firmware.ConfigMap
import CanBootloader.Firmware.ConfigUpdate
import CanBootloader.Firmware.ConfigPages
import CanBootloader.Firmware.FlashSafety
import CanBootloader.Firmware.SaveHistory
import CanBootloader.Firmware.SaveReply
import CanBootloader.Client.Commands
import CanBootloader.Client.Agreement
import CanBootloader.Client.Flash
import CanBootloader.Client.Datagram
import CanBootloader.Client.Codec
import CanBootloader.Client.Reader
import CanBootloader.Client.Reassembly
import CanBootloader.Firmware.Acceptance
import CanBootloader.Firmware.Reception
import CanBootloader.Firmware.ReaderBounds
import CanBootloader.Firmware.Framing
import CanBootloader.Firmware.Status
import CanBootloader.Firmware.NodeId
import CanBootloader.Client.Robustness
import CanBootloader.Client.Traffic
import CanBootloader.Firmware.SectorCache
import CanBootloader.Firmware.SectorBounds
import CanBootloader.Firmware.EraseReply
import CanBootloader.Firmware.CrcRegion
import CanBootloader.Client.Verify
import CanBootloader.Firmware.Dispatch
import CanBootloader.Firmware.LastWriter
import CanBootloader.Firmware.ParserTrace
import CanBootloader.Firmware.ConfigRead
import CanBootloader.Client.Flashable
import CanBootloader.Firmware.Residue
import CanBootloader.Lib.PyText
import CanBootloader.Client.Slcan
import CanBootloader.Client.Retry
import CanBootloader.Client.Completion
import CanBootloader.Client.Enumerate
import CanBootloader.Client.Session
import CanBootloader.Client.FlashSession
import CanBootloader.Client.MainLoop
import CanBootloader.Client.BusFrames
import CanBootloader.Client.Lossless
import CanBootloader.Client.Wire
import CanBootloader.Firmware.Reset
import CanBootloader.Firmware.Regions
import CanBootloader.Firmware.Recovery
import CanBootloader.Client.Progress
import CanBootloader.Client.Alone
import CanBootloader.Client.FlashWire
