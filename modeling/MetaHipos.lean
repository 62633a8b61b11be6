import MetaHipos.Bootconfig.PowerCut
import MetaHipos.Bootconfig.Reread
import MetaHipos.Bootconfig.Failure
import MetaHipos.Bootconfig.HealthyRetry
import MetaHipos.Bootconfig.ExitStatus
import MetaHipos.Bootconfig.Epoch
import MetaHipos.Bootconfig.Rotation
import MetaHipos.Bootconfig.HealthyPage
import MetaHipos.Bootconfig.BadBlock
import MetaHipos.Bootconfig.Visits
import MetaHipos.Bootconfig.FirstConfig
import MetaHipos.Bootconfig.PartitionArg
import MetaHipos.Bootconfig.Geometry
import MetaHipos.Bootconfig.TwoProcesses
import MetaHipos.Uboot.SlotSwitch
import MetaHipos.Uboot.FitConf
import MetaHipos.Initrd.VerifiedRootfs
import MetaHipos.Initrd.PowerLoss
import MetaHipos.Initrd.OnlyCopy
import MetaHipos.Gstreamer.Refcount
import MetaHipos.Gstreamer.Free
import MetaHipos.Gstreamer.Crop
import MetaHipos.Kernel.LvdsPower
import MetaHipos.DeviceInfo.Identity
import MetaHipos.NetCheck.Sync
import MetaHipos.Rafi.Codec
import MetaHipos.Rafi.Keys
import MetaHipos.Rafi.Command
import MetaHipos.Uboot.BootedSlot
import MetaHipos.Fitimage.Booted
import MetaHipos.Initrd.Provisioned
